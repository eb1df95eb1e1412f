import Chromium.Lib.TransSys
import Mathlib.Data.List.Range

/-!
# The transactions of a cache entry

`net/http/http_cache.cc`: the lock of an `ActiveEntry`, which has one writer or any number of
readers and a queue of the transactions that wait, and is moved on by the task
`OnProcessPendingQueue`.

The fields `arrivals`, `left`, `writing` and `reading` of the state are not in the source: they
record who has begun to wait, what became of them, and which transactions were admitted and have
not finished.  A call that ends the use of the entry is made by a transaction that was admitted,
and none is made when the entry is deleted; that the entry agrees with what such a transaction
believes, as the source asserts, is part of the invariant.

`activeEntry_run`: in every state that any calls lead to the entry is `Sound`.
-/

namespace Chromium.Net.HttpCache

open Lib

/-- A transaction, by its address. -/
abbrev Transaction := ℕ

inductive Mode where
  | NONE
  | READ_META
  | READ_DATA
  | READ
  | WRITE
  | READ_WRITE
  | UPDATE
  deriving DecidableEq, Repr

/-- `mode() & Transaction::WRITE`. -/
def Mode.hasWrite : Mode → Bool
  | .WRITE | .READ_WRITE | .UPDATE => true
  | _ => false

/-- A transaction in the queue; the ticket, which is not in the source, tells its waits apart. -/
structure Waiter where
  trans : Transaction
  ticket : ℕ
  deriving DecidableEq, Repr

structure ActiveEntry where
  writer : Option Transaction
  readers : List Transaction
  pendingQueue : List Waiter
  willProcessPendingQueue : Bool
  doomed : Bool
  deriving DecidableEq, Repr

/-- `ActiveEntry(entry)`. -/
def ActiveEntry.new : ActiveEntry := ⟨none, [], [], false, false⟩

/-- What becomes of a transaction that waits. -/
inductive Outcome where
  | admitted
  | raced
  | removed
  deriving DecidableEq, Repr

/-- An entry, whether it was deleted, how many tasks `OnProcessPendingQueue` are posted for it,
and what happened to it. -/
structure State where
  entry : ActiveEntry
  deleted : Bool
  tasks : ℕ
  arrivals : List Transaction
  left : List (Waiter × Outcome)
  writing : List Transaction
  reading : List Transaction

/-- What `AddTransactionToEntry` returns. -/
inductive Rv where
  | OK
  | ERR_IO_PENDING
  deriving DecidableEq, Repr

namespace State

def processPendingQueue (s : State) : State :=
  if s.entry.willProcessPendingQueue then s
  else { s with entry := { s.entry with willProcessPendingQueue := true }, tasks := s.tasks + 1 }

/-- `HttpCache::DestroyEntry`: `FinalizeDoomedEntry` and `DeactivateEntry` both delete the entry. -/
def destroyEntry (s : State) : State := { s with deleted := true }

def pushBack (s : State) (t : Transaction) : State :=
  { s with
    entry := { s.entry with pendingQueue := s.entry.pendingQueue ++ [⟨t, s.arrivals.length⟩] }
    arrivals := s.arrivals ++ [t] }

def addTransactionToEntry (s : State) (mode : Transaction → Mode) (t : Transaction) : State × Rv :=
  -- the end of the function, behind the assignments
  let enter (s : State) : State × Rv :=
    (if s.entry.writer.isNone && !s.entry.pendingQueue.isEmpty then s.processPendingQueue else s, .OK)
  if s.entry.writer.isSome || s.entry.willProcessPendingQueue then (s.pushBack t, .ERR_IO_PENDING)
  else if (mode t).hasWrite then
    if s.entry.readers.isEmpty then
      enter { s with entry := { s.entry with writer := some t }, writing := s.writing ++ [t] }
    else (s.pushBack t, .ERR_IO_PENDING)
  else
    enter { s with
      entry := { s.entry with readers := s.entry.readers ++ [t] }, reading := s.reading ++ [t] }

def doneReadingFromEntry (s : State) (t : Transaction) : State :=
  processPendingQueue { s with
    entry := { s.entry with readers := s.entry.readers.erase t }, reading := s.reading.erase t }

/-- `HttpCache::DoneWritingToEntry`, which the transaction calls.  Those that wait are notified with
`ERR_CACHE_RACE` after the entry was destroyed. -/
def doneWritingToEntry (s : State) (t : Transaction) (success : Bool) : State :=
  let s := { s with entry := { s.entry with writer := none }, writing := s.writing.erase t }
  if success then s.processPendingQueue
  else
    let pendingQueue := s.entry.pendingQueue
    let s := destroyEntry { s with entry := { s.entry with pendingQueue := [] } }
    { s with left := s.left ++ pendingQueue.map (·, .raced) }

/-- `HttpCache::DoneWithEntry`; `success` is what becomes of it when the writer cancels. -/
def doneWithEntry (s : State) (t : Transaction) (success : Bool) : State :=
  if s.entry.willProcessPendingQueue && s.entry.readers.isEmpty then s
  else if s.entry.writer.isSome then s.doneWritingToEntry t success
  else s.doneReadingFromEntry t

def convertWriterToReader (s : State) : State :=
  match s.entry.writer with
  | none => s
  | some t =>
    processPendingQueue { s with
      entry := { s.entry with writer := none, readers := s.entry.readers ++ [t] }
      writing := s.writing.erase t
      reading := s.reading ++ [t] }

/-- `HttpCache::DoomEntry`, which finds the entry among the active ones. -/
def doomEntry (s : State) : State := { s with entry := { s.entry with doomed := true } }

/-- `HttpCache::RemovePendingTransactionFromEntry`. -/
def removePendingTransaction (s : State) (t : Transaction) : State :=
  match s.entry.pendingQueue.find? (·.trans = t) with
  | none => s
  | some waiter =>
    { s with
      entry := { s.entry with pendingQueue := s.entry.pendingQueue.eraseP (·.trans = t) }
      left := s.left ++ [(waiter, .removed)] }

def onProcessPendingQueue (s : State) (mode : Transaction → Mode) : State :=
  let s := { s with entry := { s.entry with willProcessPendingQueue := false }, tasks := s.tasks - 1 }
  match s.entry.pendingQueue with
  | [] => if s.entry.readers.isEmpty then s.destroyEntry else s
  | next :: pendingQueue =>
    if (mode next.trans).hasWrite && !s.entry.readers.isEmpty then s
    else
      let (s, rv) := addTransactionToEntry { s with entry := { s.entry with pendingQueue } } mode next.trans
      if rv = .ERR_IO_PENDING then s else { s with left := s.left ++ [(next, .admitted)] }

end State

/-- A call on the entry; `mode` is what the transactions' modes are at its time. -/
inductive Call where
  | addTransactionToEntry (mode : Transaction → Mode) (t : Transaction)
  | onProcessPendingQueue (mode : Transaction → Mode)
  | doneWithEntry (t : Transaction) (success : Bool)
  | doneWritingToEntry (t : Transaction) (success : Bool)
  | doneReadingFromEntry (t : Transaction)
  | convertWriterToReader (t : Transaction)
  | doomEntry
  | removePendingTransaction (t : Transaction)

/-- When a call is made: the task when it is posted, the end of a use by a transaction that was
admitted, or that has nothing to end, and no call when the entry is deleted. -/
def Call.Made (s : State) : Call → Prop
  | .onProcessPendingQueue _ => 0 < s.tasks
  | .addTransactionToEntry _ _ | .removePendingTransaction _ => s.deleted = false
  | .doneWithEntry t _ =>
    s.deleted = false ∧ (t ∈ s.writing ∨ t ∈ s.reading ∨
      (s.entry.willProcessPendingQueue = true ∧ s.entry.readers = []))
  | .doneWritingToEntry t _ | .convertWriterToReader t => s.deleted = false ∧ t ∈ s.writing
  | .doneReadingFromEntry t => s.deleted = false ∧ t ∈ s.reading
  | .doomEntry => s.deleted = false ∧ s.entry.doomed = false

def Call.run (s : State) : Call → State
  | .addTransactionToEntry mode t => (s.addTransactionToEntry mode t).1
  | .onProcessPendingQueue mode => s.onProcessPendingQueue mode
  | .doneWithEntry t success => s.doneWithEntry t success
  | .doneWritingToEntry t success => s.doneWritingToEntry t success
  | .doneReadingFromEntry t => s.doneReadingFromEntry t
  | .convertWriterToReader _ => s.convertWriterToReader
  | .doomEntry => s.doomEntry
  | .removePendingTransaction t => s.removePendingTransaction t

def activeEntry : TransSys State Call where
  init s := s = ⟨.new, false, 0, [], [], [], []⟩
  step s l s' := l.Made s ∧ s' = l.run s

/-! ### What holds of the lock -/

def admitted (left : List (Waiter × Outcome)) : List Waiter := (left.filter (·.2 = .admitted)).map Prod.fst

/-- What the entry is for: a lock with a queue. -/
structure Sound (s : State) : Prop where
  /-- There is one writer at most, and no reader beside it. -/
  one_writer : s.writing.length ≤ 1
  no_reader : s.writing ≠ [] → s.reading = []
  /-- The entry has the writer and the readers that were admitted and have not finished. -/
  writer_eq : s.entry.writer.toList = s.writing
  readers_eq : s.entry.readers = s.reading
  /-- Those that wait are admitted as they arrived: the tickets of the admitted ascend, and those that wait have
  larger ones. -/
  order : (admitted s.left ++ s.entry.pendingQueue).Pairwise fun a b => a.ticket < b.ticket
  /-- Each ticket is in the queue or has one outcome, and is that of the transaction that arrived with it. -/
  tickets : ((s.entry.pendingQueue ++ s.left.map Prod.fst).map Waiter.ticket).Perm (List.range s.arrivals.length)
  named : ∀ w ∈ s.entry.pendingQueue ++ s.left.map Prod.fst, s.arrivals[w.ticket]? = some w.trans
  /-- Someone will move the queue on. -/
  woken : s.entry.pendingQueue ≠ [] → s.entry.writer ≠ none ∨ s.entry.readers ≠ [] ∨ 0 < s.tasks
  /-- Nobody uses, awaits or will process an entry that was deleted. -/
  deleted : s.deleted = true → s.entry.writer = none ∧ s.entry.readers = [] ∧ s.entry.pendingQueue = [] ∧ s.tasks = 0

/-- **The queue**: no transaction that waits is lost or overtaken. -/
structure Queued (queue : List Waiter) (left : List (Waiter × Outcome)) (arrivals : List Transaction) : Prop where
  /-- Those that wait are admitted as they arrived: the tickets of the admitted ascend, and those that wait have
  larger ones. -/
  order : (admitted left ++ queue).Pairwise fun a b => a.ticket < b.ticket
  /-- Each ticket is in the queue or has one outcome. -/
  tickets : ((queue ++ left.map Prod.fst).map Waiter.ticket).Perm (List.range arrivals.length)
  /-- It is that of the transaction that arrived with it. -/
  named : ∀ w ∈ queue ++ left.map Prod.fst, arrivals[w.ticket]? = some w.trans

/-- **The lock**: the entry has the writer and the readers that were admitted, the flag tells of the posted task, and
there is no writer beside a reader or a task. -/
structure Locked (s : State) : Prop where
  writer_eq : s.entry.writer.toList = s.writing
  readers_eq : s.entry.readers = s.reading
  exclusive : s.entry.writer ≠ none → s.entry.readers = []
  tasks_eq : s.tasks = if s.entry.willProcessPendingQueue then 1 else 0
  no_task : s.entry.willProcessPendingQueue = true → s.entry.writer = none

def Woken (s : State) : Prop :=
  s.entry.pendingQueue ≠ [] → s.entry.writer ≠ none ∨ s.entry.readers ≠ [] ∨ s.entry.willProcessPendingQueue = true

/-- Nobody uses, awaits or will process the entry. -/
structure Unused (s : State) : Prop where
  writer : s.entry.writer = none
  readers : s.entry.readers = []
  pendingQueue : s.entry.pendingQueue = []
  flag : s.entry.willProcessPendingQueue = false

structure Inv (s : State) : Prop where
  locked : Locked s
  queued : Queued s.entry.pendingQueue s.left s.arrivals
  woken : Woken s
  unused : s.deleted = true → Unused s

/-! ### The queue -/

variable {queue : List Waiter} {left : List (Waiter × Outcome)} {arrivals : List Transaction} {t : Transaction}

theorem admitted_append (left left' : List (Waiter × Outcome)) :
    admitted (left ++ left') = admitted left ++ admitted left' := by
  unfold admitted
  rw [List.filter_append, List.map_append]

theorem Queued.ticket_lt (h : Queued queue left arrivals) {w : Waiter} (hw : w ∈ queue ++ left.map Prod.fst) :
    w.ticket < arrivals.length := by
  have hmem := h.tickets.subset (List.mem_map_of_mem hw)
  exact List.mem_range.1 hmem

theorem mem_of_mem_admitted {w : Waiter} (hw : w ∈ admitted left) : w ∈ left.map Prod.fst := by
  obtain ⟨e, he, rfl⟩ := List.mem_map.1 hw
  exact List.mem_map_of_mem (List.mem_of_mem_filter he)

theorem Queued.pushBack (h : Queued queue left arrivals) :
    Queued (queue ++ [⟨t, arrivals.length⟩]) left (arrivals ++ [t]) where
  order := by
    rw [← List.append_assoc]
    refine List.pairwise_append.2 ⟨h.order, List.pairwise_singleton _ _, fun a ha b hb => ?_⟩
    obtain rfl := List.mem_singleton.1 hb
    refine h.ticket_lt ?_
    rcases List.mem_append.1 ha with ha | ha
    · exact List.mem_append_right _ (mem_of_mem_admitted ha)
    · exact List.mem_append_left _ ha
  tickets := by
    have hmove : ((queue ++ [Waiter.mk t arrivals.length] ++ left.map Prod.fst).map Waiter.ticket).Perm
        ((queue ++ left.map Prod.fst).map Waiter.ticket ++ [arrivals.length]) := by
      rw [List.append_assoc, List.map_append, List.map_append, List.map_append, List.append_assoc]
      exact List.perm_append_comm.append_left _
    rw [List.length_append, List.length_singleton, List.range_succ]
    exact hmove.trans (h.tickets.append_right _)
  named w hw := by
    rcases List.mem_append.1 hw with hw | hw
    · rcases List.mem_append.1 hw with hw | hw
      · have hlt := h.ticket_lt (List.mem_append_left _ hw)
        rw [List.getElem?_append_left hlt]
        exact h.named w (List.mem_append_left _ hw)
      · obtain rfl := List.mem_singleton.1 hw
        rw [List.getElem?_append_right le_rfl, Nat.sub_self]
        rfl
    · have hlt := h.ticket_lt (List.mem_append_right _ hw)
      rw [List.getElem?_append_left hlt]
      exact h.named w (List.mem_append_right _ hw)

theorem Queued.leave (h : Queued queue left arrivals) {queue' : List Waiter} {gone : List (Waiter × Outcome)}
    (hperm : (queue' ++ gone.map Prod.fst).Perm queue)
    (horder : (admitted left ++ (admitted gone ++ queue')).Pairwise fun a b => a.ticket < b.ticket) :
    Queued queue' (left ++ gone) arrivals := by
  have hall : (queue' ++ (left ++ gone).map Prod.fst).Perm (queue ++ left.map Prod.fst) := by
    rw [List.map_append]
    refine (List.perm_append_comm.append_left _).trans ?_
    rw [← List.append_assoc]
    exact hperm.append_right _
  refine ⟨?_, (hall.map _).trans h.tickets, fun w hw => h.named w (hall.subset hw)⟩
  rw [admitted_append, List.append_assoc]
  exact horder

theorem Queued.admit {next : Waiter} (h : Queued (next :: queue) left arrivals) :
    Queued queue (left ++ [(next, .admitted)]) arrivals :=
  h.leave (List.perm_append_singleton next queue) h.order

theorem Queued.race (h : Queued queue left arrivals) : Queued [] (left ++ queue.map (·, .raced)) arrivals := by
  have hnone : admitted (queue.map (·, Outcome.raced)) = [] := by
    rw [admitted, List.map_eq_nil_iff, List.filter_eq_nil_iff]
    intro e he
    obtain ⟨w, -, rfl⟩ := List.mem_map.1 he
    exact Bool.false_ne_true
  refine h.leave ?_ ?_
  · rw [List.nil_append, List.map_map]
    exact List.Perm.of_eq (List.map_id _)
  · rw [hnone, List.append_nil, List.append_nil]
    exact (List.pairwise_append.1 h.order).1

theorem Queued.remove (h : Queued queue left arrivals) {w : Waiter} (hfind : queue.find? (·.trans = t) = some w) :
    Queued (queue.eraseP (·.trans = t)) (left ++ [(w, .removed)]) arrivals := by
  refine h.leave ?_ ?_
  · obtain ⟨hw, pre, post, rfl, hpre⟩ := List.find?_eq_some_iff_append.1 hfind
    rw [List.eraseP_append_right _ fun b hb => by simpa using hpre b hb, List.eraseP_cons_of_pos (p := fun x : Waiter => decide (x.trans = t)) hw]
    exact List.perm_append_singleton _ _ |>.trans List.perm_middle.symm
  · exact h.order.sublist (List.eraseP_sublist.append_left _)

/-! ### The lock -/

namespace State

variable {s : State}

theorem processPendingQueue_eq : s.processPendingQueue = { s with
      entry := { s.entry with willProcessPendingQueue := true }
      tasks := if s.entry.willProcessPendingQueue then s.tasks else s.tasks + 1 } := by
  unfold processPendingQueue
  cases hflag : s.entry.willProcessPendingQueue with
  | false => rfl
  | true => rw [if_pos rfl, if_pos rfl, ← hflag]

end State

variable {s : State}

theorem Locked.process (h : Locked s) (hwriter : s.entry.writer = none)
    (hqueued : Queued s.entry.pendingQueue s.left s.arrivals) (hdeleted : s.deleted = false) :
    Inv s.processPendingQueue := by
  rw [State.processPendingQueue_eq]
  refine ⟨⟨h.writer_eq, h.readers_eq, h.exclusive, ?_, fun _ => hwriter⟩, hqueued, fun _ => .inr (.inr rfl), ?_⟩
  · have htasks := h.tasks_eq
    cases hflag : s.entry.willProcessPendingQueue <;> simp_all
  · intro hd
    exact nomatch hdeleted.symm.trans hd

theorem Inv.writer_of_mem (h : Inv s) (ht : t ∈ s.writing) :
    s.entry.writer = some t ∧ s.writing = [t] ∧ s.entry.readers = [] ∧ s.entry.willProcessPendingQueue = false := by
  have heq := h.locked.writer_eq
  rw [← heq, Option.mem_toList] at ht
  rw [ht] at heq
  refine ⟨ht, heq.symm, h.locked.exclusive (by rw [ht]; exact Option.some_ne_none t), ?_⟩
  cases hflag : s.entry.willProcessPendingQueue with
  | false => rfl
  | true =>
    have hnone := h.locked.no_task hflag
    rw [ht] at hnone
    cases hnone

theorem Inv.writer_of_reading (h : Inv s) (ht : t ∈ s.reading) : s.entry.writer = none ∧ s.entry.readers ≠ [] := by
  rw [← h.locked.readers_eq] at ht
  have hne : s.entry.readers ≠ [] := List.ne_nil_of_mem ht
  exact ⟨by_contra fun hw => hne (h.locked.exclusive hw), hne⟩

theorem Inv.doneReadingFromEntry (h : Inv s) (hdeleted : s.deleted = false) (ht : t ∈ s.reading) :
    Inv (s.doneReadingFromEntry t) := by
  obtain ⟨hwriter, -⟩ := h.writer_of_reading ht
  refine Locked.process ⟨h.locked.writer_eq, ?_, fun hw => absurd hwriter hw, h.locked.tasks_eq, h.locked.no_task⟩
    hwriter h.queued hdeleted
  exact congrArg (List.erase · t) h.locked.readers_eq

theorem Inv.doneWritingToEntry (h : Inv s) (hdeleted : s.deleted = false) (ht : t ∈ s.writing) (success : Bool) :
    Inv (s.doneWritingToEntry t success) := by
  obtain ⟨hwriter, hwriting, hreaders, hflag⟩ := h.writer_of_mem ht
  have herase : s.writing.erase t = [] := by rw [hwriting, List.erase_cons_head]
  have hlocked : Locked { s with entry := { s.entry with writer := none }, writing := s.writing.erase t } :=
    ⟨herase.symm, h.locked.readers_eq, fun hw => absurd rfl hw, h.locked.tasks_eq, fun _ => rfl⟩
  cases success with
  | true => exact hlocked.process rfl h.queued hdeleted
  | false =>
    exact ⟨⟨hlocked.writer_eq, hlocked.readers_eq, hlocked.exclusive, hlocked.tasks_eq, hlocked.no_task⟩,
      h.queued.race, fun hne => absurd rfl hne, fun _ => ⟨rfl, hreaders, rfl, hflag⟩⟩

theorem Inv.convertWriterToReader (h : Inv s) (hdeleted : s.deleted = false) (ht : t ∈ s.writing) :
    Inv s.convertWriterToReader := by
  obtain ⟨hwriter, hwriting, hreaders, hflag⟩ := h.writer_of_mem ht
  rw [State.convertWriterToReader, hwriter]
  refine Locked.process ⟨?_, ?_, fun hw => absurd rfl hw, h.locked.tasks_eq, fun _ => rfl⟩ rfl h.queued hdeleted
  · show [] = s.writing.erase t
    rw [hwriting, List.erase_cons_head]
  · exact congrArg (· ++ [t]) h.locked.readers_eq

theorem Inv.doneWithEntry {success : Bool} (h : Inv s) (hmade : Call.Made s (.doneWithEntry t success)) :
    Inv (s.doneWithEntry t success) := by
  obtain ⟨hdeleted, hholds⟩ := hmade
  unfold State.doneWithEntry
  by_cases hearly : (s.entry.willProcessPendingQueue && s.entry.readers.isEmpty) = true
  · rw [if_pos hearly]
    exact h
  · rw [if_neg hearly]
    rcases hholds with ht | ht | ⟨hflag, hreaders⟩
    · rw [if_pos (by rw [(h.writer_of_mem ht).1]; rfl)]
      exact h.doneWritingToEntry hdeleted ht success
    · rw [if_neg (by rw [(h.writer_of_reading ht).1]; exact Bool.false_ne_true)]
      exact h.doneReadingFromEntry hdeleted ht
    · exact absurd (by rw [hflag, hreaders]; rfl) hearly

theorem Inv.doomEntry (h : Inv s) : Inv s.doomEntry :=
  ⟨⟨h.locked.writer_eq, h.locked.readers_eq, h.locked.exclusive, h.locked.tasks_eq, h.locked.no_task⟩, h.queued,
    h.woken, fun hd => ⟨(h.unused hd).writer, (h.unused hd).readers, (h.unused hd).pendingQueue, (h.unused hd).flag⟩⟩

theorem Inv.removePendingTransaction (h : Inv s) (hdeleted : s.deleted = false) :
    Inv (s.removePendingTransaction t) := by
  unfold State.removePendingTransaction
  cases hfind : s.entry.pendingQueue.find? (·.trans = t) with
  | none => exact h
  | some w =>
    refine ⟨⟨h.locked.writer_eq, h.locked.readers_eq, h.locked.exclusive, h.locked.tasks_eq, h.locked.no_task⟩,
      h.queued.remove hfind, fun _ => h.woken ?_, fun hd => nomatch hdeleted.symm.trans hd⟩
    intro hnil
    rw [hnil] at hfind
    cases hfind

theorem Inv.pushBack (hlocked : Locked s) (hqueued : Queued s.entry.pendingQueue s.left s.arrivals)
    (hdeleted : s.deleted = false)
    (hwake : s.entry.writer ≠ none ∨ s.entry.readers ≠ [] ∨ s.entry.willProcessPendingQueue = true) :
    Inv (s.pushBack t) :=
  ⟨⟨hlocked.writer_eq, hlocked.readers_eq, hlocked.exclusive, hlocked.tasks_eq, hlocked.no_task⟩, hqueued.pushBack,
    fun _ => hwake, fun hd => nomatch hdeleted.symm.trans hd⟩

/-- **A transaction is admitted at once, or it waits.**  It is admitted when there is no writer and no task, and no reader
beside a writer. -/
theorem Locked.addTransactionToEntry (h : Locked s) (hqueued : Queued s.entry.pendingQueue s.left s.arrivals)
    (hdeleted : s.deleted = false) (mode : Transaction → Mode) :
    Inv (s.addTransactionToEntry mode t).1 := by
  dsimp only [State.addTransactionToEntry]
  by_cases hbusy : (s.entry.writer.isSome || s.entry.willProcessPendingQueue) = true
  · rw [if_pos hbusy]
    refine Inv.pushBack h hqueued hdeleted ?_
    rcases Bool.or_eq_true_iff.1 hbusy with hw | hflag
    · exact .inl (Option.isSome_iff_ne_none.1 hw)
    · exact .inr (.inr hflag)
  rw [if_neg hbusy]
  obtain ⟨hwriter, hflag⟩ : s.entry.writer = none ∧ s.entry.willProcessPendingQueue = false := by simpa using hbusy
  have hwriting : s.writing = [] := by rw [← h.writer_eq, hwriter]; rfl
  split_ifs with hmode hreaders hlast hlast
  · simp at hlast
  · have hnone : s.entry.readers = [] := List.isEmpty_iff.1 hreaders
    exact ⟨⟨by rw [hwriting]; rfl, h.readers_eq, fun _ => hnone, h.tasks_eq, fun hf => absurd (hflag.symm.trans hf)
      Bool.false_ne_true⟩, hqueued, fun _ => .inl (Option.some_ne_none t),
      fun hd => nomatch hdeleted.symm.trans hd⟩
  · exact Inv.pushBack h hqueued hdeleted (.inr (.inl fun hnil => hreaders (by rw [hnil]; rfl)))
  · refine Locked.process ⟨h.writer_eq, congrArg (· ++ [t]) h.readers_eq, fun hw => absurd hwriter hw, h.tasks_eq,
      h.no_task⟩ hwriter hqueued hdeleted
  · refine ⟨⟨h.writer_eq, congrArg (· ++ [t]) h.readers_eq, fun hw => absurd hwriter hw, h.tasks_eq, h.no_task⟩,
      hqueued, fun _ => .inr (.inl (by simp)), fun hd => nomatch hdeleted.symm.trans hd⟩

namespace State

theorem addTransactionToEntry_left (mode : Transaction → Mode) (t : Transaction) (left : List (Waiter × Outcome)) :
    ({ s with left } : State).addTransactionToEntry mode t =
      ({ (s.addTransactionToEntry mode t).1 with left }, (s.addTransactionToEntry mode t).2) := by
  dsimp only [addTransactionToEntry]
  simp only [processPendingQueue_eq]
  split_ifs <;> rfl

/-- A transaction is admitted at once if there is no writer and no task, and no reader that it would write beside. -/
theorem addTransactionToEntry_rv (mode : Transaction → Mode) (t : Transaction) (hwriter : s.entry.writer = none)
    (hflag : s.entry.willProcessPendingQueue = false)
    (hreaders : ((mode t).hasWrite && !s.entry.readers.isEmpty) = false) :
    (s.addTransactionToEntry mode t).2 = .OK := by
  dsimp only [addTransactionToEntry]
  rw [hwriter, hflag, if_neg (by decide)]
  cases hmode : (mode t).hasWrite with
  | false => rfl
  | true =>
    rw [hmode, Bool.true_and, Bool.not_eq_false'] at hreaders
    rw [if_pos rfl, if_pos hreaders]

end State

/-- **The task**: the entry is destroyed if no one is interested in it, and else the next transaction is admitted,
unless it would write beside a reader. -/
theorem Inv.onProcessPendingQueue (h : Inv s) (htasks : 0 < s.tasks) (mode : Transaction → Mode) :
    Inv (s.onProcessPendingQueue mode) := by
  have hflag : s.entry.willProcessPendingQueue = true := by
    by_contra hf
    rw [h.locked.tasks_eq, if_neg hf] at htasks
    cases htasks
  have hwriter := h.locked.no_task hflag
  have hdeleted : s.deleted = false := by
    by_contra hd
    have hunused := (h.unused (by simpa using hd)).flag
    rw [hflag] at hunused
    cases hunused
  have hone : s.tasks - 1 = 0 := by rw [h.locked.tasks_eq, if_pos hflag]
  -- the entry without its task
  have hlocked (queue : List Waiter) : Locked { s with
      entry := { s.entry with willProcessPendingQueue := false, pendingQueue := queue }, tasks := s.tasks - 1 } :=
    ⟨h.locked.writer_eq, h.locked.readers_eq, h.locked.exclusive, hone, nofun⟩
  have hfalse {p : Prop} (hd : s.deleted = true) : p := nomatch hdeleted.symm.trans hd
  have hqueued := h.queued
  dsimp only [State.onProcessPendingQueue]
  cases hqueue : s.entry.pendingQueue with
  | nil =>
    rw [hqueue] at hqueued
    obtain ⟨hwriting, hreading, hexclusive, htasks', hno⟩ := hlocked []
    dsimp only
    split_ifs with hreaders
    · exact ⟨⟨hwriting, hreading, hexclusive, htasks', hno⟩, hqueued, fun hne => absurd rfl hne,
        fun _ => ⟨hwriter, List.isEmpty_iff.1 hreaders, rfl, rfl⟩⟩
    · exact ⟨⟨hwriting, hreading, hexclusive, htasks', hno⟩, hqueued, fun hne => absurd rfl hne, hfalse⟩
  | cons next queue =>
    rw [hqueue] at hqueued
    dsimp only
    split_ifs with hwait hrv
    · refine ⟨hlocked _, hqueued, fun _ => .inr (.inl fun hnil => ?_), hfalse⟩
      rw [show s.entry.readers = [] from hnil] at hwait
      simp at hwait
    · -- it is not put back into the queue
      have hok : (State.addTransactionToEntry { s with
          entry := { s.entry with willProcessPendingQueue := false, pendingQueue := queue }, tasks := s.tasks - 1 }
          mode next.trans).2 = .OK :=
        State.addTransactionToEntry_rv mode next.trans hwriter rfl (by simpa using hwait)
      exact nomatch hrv.symm.trans hok
    · obtain ⟨hwriting, hreading, hexclusive, htasks', hno⟩ := hlocked queue
      have hadd := Locked.addTransactionToEntry (t := next.trans)
        (s := { s with
          entry := { s.entry with willProcessPendingQueue := false, pendingQueue := queue }
          tasks := s.tasks - 1
          left := s.left ++ [(next, .admitted)] })
        ⟨hwriting, hreading, hexclusive, htasks', hno⟩ hqueued.admit hdeleted mode
      have hleft := State.addTransactionToEntry_left (s := { s with
        entry := { s.entry with willProcessPendingQueue := false, pendingQueue := queue }, tasks := s.tasks - 1 })
        mode next.trans
      have hsame := congrArg (fun r => r.1.left) (hleft s.left)
      have hmore := congrArg Prod.fst (hleft (s.left ++ [(next, .admitted)]))
      dsimp only at hsame hmore
      rw [hsame]
      rw [hmore] at hadd
      exact hadd

/-! ### Runs -/

theorem inv_init {s : State} (h : activeEntry.init s) : Inv s := by
  obtain rfl := h
  exact ⟨⟨rfl, rfl, fun hw => absurd rfl hw, rfl, fun _ => rfl⟩,
    ⟨List.Pairwise.nil, List.Perm.refl _, fun w hw => nomatch hw⟩, fun hne => absurd rfl hne,
    nofun⟩

theorem Inv.run {l : Call} (h : Inv s) (hmade : l.Made s) : Inv (l.run s) := by
  cases l with
  | addTransactionToEntry mode t => exact h.locked.addTransactionToEntry h.queued hmade mode
  | onProcessPendingQueue mode => exact h.onProcessPendingQueue hmade mode
  | doneWithEntry t success => exact h.doneWithEntry hmade
  | doneWritingToEntry t success => exact h.doneWritingToEntry hmade.1 hmade.2 success
  | doneReadingFromEntry t => exact h.doneReadingFromEntry hmade.1 hmade.2
  | convertWriterToReader t => exact h.convertWriterToReader hmade.1 hmade.2
  | doomEntry => exact h.doomEntry
  | removePendingTransaction t => exact h.removePendingTransaction hmade

theorem run_call {tr : List Call} (h : activeEntry.Run tr s) (l : Call) (hmade : l.Made s) :
    activeEntry.Run (tr ++ [l]) (l.run s) := h.step ⟨hmade, rfl⟩

theorem inv_run {tr : List Call} (h : activeEntry.Run tr s) : Inv s := by
  refine h.invariant (I := Inv) (fun _ => inv_init) fun s l s' hi hst => ?_
  obtain ⟨hmade, rfl⟩ := hst
  exact hi.run hmade

/-- **In every state that calls on an entry lead to** there is one writer at most and no reader beside it, those that wait
are admitted as they arrived, none is lost, someone will move the queue on, and an entry that was deleted has no
writer, no reader, no one who waits and no posted task. -/
theorem activeEntry_run {tr : List Call} (h : activeEntry.Run tr s) : Sound s := by
  obtain ⟨hlocked, hqueued, hwoken, hunused⟩ := inv_run h
  have hexclusive : s.writing ≠ [] → s.entry.writer ≠ none := by
    rw [← hlocked.writer_eq]
    intro hne hnone
    rw [hnone] at hne
    exact hne rfl
  have htasks : 0 < s.tasks ↔ s.entry.willProcessPendingQueue = true := by
    rw [hlocked.tasks_eq]
    split_ifs with hflag <;> simp [hflag]
  refine ⟨?_, fun hne => ?_, hlocked.writer_eq, hlocked.readers_eq, hqueued.order, hqueued.tickets, hqueued.named, fun hne => ?_, fun hd => ?_⟩
  · rw [← hlocked.writer_eq]
    cases s.entry.writer <;> simp
  · rw [← hlocked.readers_eq]
    exact hlocked.exclusive (hexclusive hne)
  · rw [htasks]
    exact hwoken hne
  · obtain ⟨hwriter, hreaders, hqueue, hflag⟩ := hunused hd
    exact ⟨hwriter, hreaders, hqueue, by rw [hlocked.tasks_eq, hflag]; rfl⟩

def oneWrites (t : Transaction) : Mode := if t = 1 then .READ_WRITE else .READ

theorem activeEntry_run_oneWrites :
    Sound ⟨⟨none, [2], [⟨3, 1⟩], true, false⟩, false, 1, [2, 3], [(⟨2, 0⟩, .admitted)], [], [2]⟩ := by
  have h0 : activeEntry.Run [] ⟨.new, false, 0, [], [], [], []⟩ := .init rfl
  have h1 := run_call h0 (.addTransactionToEntry oneWrites 1) rfl
  have h2 := run_call h1 (.addTransactionToEntry oneWrites 2) rfl
  have h3 := run_call h2 (.addTransactionToEntry oneWrites 3) rfl
  have h4 := run_call h3 (.doneWritingToEntry 1 true) ⟨rfl, List.mem_singleton_self 1⟩
  exact activeEntry_run (run_call h4 (.onProcessPendingQueue oneWrites) Nat.one_pos)

end Chromium.Net.HttpCache
