import Chromium.Lib.History
import Chromium.Net.Spdy.SpdySession

/-!
# Which requests are granted, and when

The log of a session tells which requests wait (`waiting`), in the order in which they came, and the
queues of the session are these by priority.  A stream is created only below the limit, the queues
are not left waiting with room, what is taken from them is the first request of the highest priority,
and every request has one outcome (`admissionOk_of_run`).

A request that is made while there is room does not look at the queues: it is granted at once.  So
one that is made when a stream closes overtakes those that wait (`not_admitted_onClose`).
-/

namespace Chromium.Net.Spdy

open Lib
open List (append_assoc filter_comm filter_sublist mem_cons_of_mem mem_cons_self mem_filter mem_map
  perm_middle)

/-! ### What a log tells -/

def waitingStep (requests : List PendingCreateStream) : Entry → List PendingCreateStream
  | .queued r => requests ++ [r]
  | .refilled r => requests.filter (·.spdyStream ≠ r.spdyStream)
  | .aborted r => requests.filter (·.spdyStream ≠ r.spdyStream)
  | .cancelled r => requests.filter (·.spdyStream ≠ r.spdyStream)
  | _ => requests

def waiting (log : List Entry) : List PendingCreateStream := log.foldl waitingStep []

/-- The outcomes of the requests that have one: granted, with or without a callback, aborted or
cancelled. -/
def outcomes (log : List Entry) : List PendingCreateStream :=
  log.filterMap fun
    | .granted r => some r
    | .called r => some r
    | .aborted r => some r
    | .cancelled r => some r
    | _ => none

def announcedStep (v : Option ℕ) : Entry → Option ℕ
  | .announced value => some value
  | _ => v

def lastAnnounced (log : List Entry) : Option ℕ := log.foldl announcedStep none

/-- A stream was created within the limit; the request that was taken from the queues had the highest
priority of those that waited, and was the first with it. -/
def Admitted (limit : ℕ) (before : List Entry) : Entry → Prop
  | .created _ _ _ active => ∀ v, lastAnnounced before = some v → v ≠ 0 → limit ≠ 0 → active ≤ v
  | .refilled r => (∀ w ∈ waiting before, r.priority ≤ w.priority) ∧
      ((waiting before).filter (·.priority = r.priority)).head? = some r
  | _ => True

variable {log : List Entry} {r : PendingCreateStream}

variable {l : List PendingCreateStream}

@[simp]
theorem waiting_append (log log' : List Entry) :
    waiting (log ++ log') = log'.foldl waitingStep (waiting log) :=
  List.foldl_append

@[simp]
theorem lastAnnounced_append (log log' : List Entry) :
    lastAnnounced (log ++ log') = log'.foldl announcedStep (lastAnnounced log) :=
  List.foldl_append

/-! ### Requests by their places -/

def Distinct (requests : List PendingCreateStream) : Prop :=
  (requests.map PendingCreateStream.spdyStream).Nodup

theorem Distinct.sublist {l' : List PendingCreateStream} (h : Distinct l') (hl : l.Sublist l') :
    Distinct l :=
  List.Nodup.sublist (hl.map _) h

theorem Distinct.perm {l' : List PendingCreateStream} (h : Distinct l) (hp : l.Perm l') : Distinct l' :=
  (hp.map _).nodup_iff.1 h

theorem Distinct.eq (h : Distinct l) {r w : PendingCreateStream}
    (hr : r ∈ l) (hw : w ∈ l) (hrw : r.spdyStream = w.spdyStream) : r = w :=
  List.inj_on_of_nodup_map h hr hw hrw

theorem Distinct.perm_cons_filter (h : Distinct l) (hr : r ∈ l) :
    l.Perm (r :: l.filter (·.spdyStream ≠ r.spdyStream)) := by
  have hnodup : l.Nodup := List.Nodup.of_map _ h
  have herase : l.filter (·.spdyStream ≠ r.spdyStream) = l.erase r := by
    rw [hnodup.erase_eq_filter]
    refine List.filter_congr fun w hw => ?_
    by_cases heq : w = r
    · subst heq
      simp
    · have hne : w.spdyStream ≠ r.spdyStream := fun hk => heq (h.eq hw hr hk)
      simp [heq, hne]
  rw [herase]
  exact List.perm_cons_erase hr

theorem filter_eq_self_of_notMem {spdyStream : ℕ}
    (h : spdyStream ∉ l.map PendingCreateStream.spdyStream) :
    l.filter (·.spdyStream ≠ spdyStream) = l := by
  refine List.filter_eq_self.2 fun w hw => decide_eq_true fun hk => h ?_
  exact mem_map.2 ⟨w, hw, hk⟩

theorem Distinct.filter_eq (h : Distinct l) (spdyStream : ℕ) : l.filter (·.spdyStream = spdyStream) = [] ∨
      ∃ r ∈ l, r.spdyStream = spdyStream ∧ l.filter (·.spdyStream = spdyStream) = [r] := by
  rcases List.eq_nil_or_concat (l.filter (·.spdyStream = spdyStream)) with hnil | ⟨_, r, hr⟩
  · exact .inl hnil
  · have hmem : r ∈ l.filter (·.spdyStream = spdyStream) := by
      rw [hr]
      simp
    have hspdy : r.spdyStream = spdyStream := of_decide_eq_true (mem_filter.1 hmem).2
    refine .inr ⟨r, List.mem_of_mem_filter hmem, hspdy, ?_⟩
    have hsplit := (h.sublist filter_sublist).perm_cons_filter hmem
    have hothers : (l.filter (·.spdyStream = spdyStream)).filter
        (·.spdyStream ≠ r.spdyStream) = [] := by
      simp [hspdy]
    rw [hothers] at hsplit
    exact List.perm_singleton.1 hsplit

namespace SpdySession

variable {s s' : SpdySession} {limit : ℕ}

variable {spdyStream : ℕ} {stack : List Frame} {rest : List PendingCreateStream}
  {i : RequestPriority}

/-! ### The invariant -/

structure AdmissionInv (limit : ℕ) (s : SpdySession) : Prop where
  limit_eq : ∀ v, lastAnnounced s.log = some v → s.maxConcurrentStreams = min v limit
  queues_eq : ∀ i, s.createStreamQueues i = (waiting s.log).filter (·.priority = i)
  history : History (Admitted limit) s.log
  distinct : Distinct (waiting s.log ++ s.pendingCallbackMap)
  perm : (issued s.log).Perm (outcomes s.log ++ (waiting s.log ++ s.pendingCallbackMap))
  full : Frame.refill ∉ s.stack → s.hasRoom = true → ∀ i, s.createStreamQueues i = []

theorem admissionInv_new (initMax : ℕ) : AdmissionInv limit (new initMax) where
  limit_eq v hv := by cases hv
  queues_eq i := rfl
  history := .nil
  distinct := List.nodup_nil
  perm := .nil
  full _ _ _ := rfl

def IsSilent : Entry → Prop
  | .pushed _ _ => True
  | .resetBy _ _ => True
  | _ => False

/-- **What is not about requests**: the log may get silent entries, and there may be less room or
one more loop over the queues. -/
theorem AdmissionInv.congr (h : AdmissionInv limit s) (hmax : s'.maxConcurrentStreams =
      s.maxConcurrentStreams) (hq : s'.createStreamQueues = s.createStreamQueues)
    (hp : s'.pendingCallbackMap = s.pendingCallbackMap)
    (hl : s'.log = s.log ∨ ∃ e, IsSilent e ∧ s'.log = s.log ++ [e])
    (hroom : Frame.refill ∉ s'.stack →
      Frame.refill ∉ s.stack ∧ (s'.hasRoom = true → s.hasRoom = true)) : AdmissionInv limit s' := by
  have hlog : lastAnnounced s'.log = lastAnnounced s.log ∧ waiting s'.log = waiting s.log ∧
      issued s'.log = issued s.log ∧ outcomes s'.log = outcomes s.log ∧
      History (Admitted limit) s'.log := by
    rcases hl with hl | ⟨e, he, hl⟩
    · rw [hl]
      exact ⟨rfl, rfl, rfl, rfl, h.history⟩
    · rw [hl]
      cases e with
      | pushed | resetBy =>
        refine ⟨by simp [announcedStep], by simp [waitingStep], by simp [issued], by simp [outcomes], ?_⟩
        exact h.history.snoc trivial
      | _ => exact absurd he id
  obtain ⟨hann, hwait, hiss, hout, hhist⟩ := hlog
  refine ⟨fun v hv => ?_, fun i => ?_, hhist, ?_, ?_, fun hstack hr i => ?_⟩
  · rw [hmax]
    exact h.limit_eq v (hann ▸ hv)
  · rw [hq, hwait]
    exact h.queues_eq i
  · rw [hwait, hp]
    exact h.distinct
  · rw [hiss, hout, hwait, hp]
    exact h.perm
  · obtain ⟨hstack', hr'⟩ := hroom hstack
    rw [hq]
    exact h.full hstack' (hr' hr) i

/-! ### The operations -/

/-- **`DeleteStream`** leaves the requests to the loop that comes next. -/
theorem AdmissionInv.deleteStream (h : AdmissionInv limit s) (streamId : ℕ) (ok : Bool) :
    AdmissionInv limit (s.deleteStream streamId ok) := by
  obtain ⟨_, hdel⟩ := s.exists_deleteStream streamId ok
  rw [hdel]
  split
  · exact h.congr rfl rfl rfl (.inl rfl) fun hstack => absurd (by simp) hstack
  · exact h.congr rfl rfl rfl (.inl rfl) fun hstack => ⟨hstack, id⟩

theorem AdmissionInv.cancel (h : AdmissionInv limit s) (stream : ℕ) :
    AdmissionInv limit (s.cancel stream) := by
  unfold SpdySession.cancel
  split
  · exact h
  · rename_i st _
    split
    · exact h
    · dsimp only
      split
      · rename_i victim _
        refine AdmissionInv.deleteStream ?_ _ _
        exact h.congr rfl rfl rfl (.inr ⟨.resetBy stream victim, trivial, rfl⟩)
          fun hstack => ⟨hstack, id⟩
      · exact h.congr rfl rfl rfl (.inl rfl) fun hstack => ⟨hstack, id⟩

theorem hasRoom_of_length_le (hmax : s'.maxConcurrentStreams = s.maxConcurrentStreams)
    (hle : s.activeStreams.length ≤ s'.activeStreams.length) (hroom : s'.hasRoom = true) :
    s.hasRoom = true := by
  have hroom' := of_decide_eq_true hroom
  rw [hmax] at hroom'
  exact decide_eq_true (hroom'.imp_right hle.trans_lt)

theorem length_activateStream {streamId : ℕ} (hfree : s.isStreamActive streamId = false)
    (stream : ℕ) :
    (s.activateStream streamId stream).activeStreams.length = s.activeStreams.length + 1 := by
  have hnone : s.activeStreams.lookup streamId = none := by
    simpa [isStreamActive, activeStream] using hfree
  have hfilter : s.activeStreams.filter (·.1 ≠ streamId) = s.activeStreams := by
    refine List.filter_eq_self.2 fun p hp => decide_eq_true fun heq => ?_
    have := List.lookup_eq_none_iff.1 hnone p hp
    simp [heq] at this
  rw [SpdySession.activateStream, List.length_cons, hfilter]

theorem AdmissionInv.pushStream (h : AdmissionInv limit s) {p : PushedSyn}
    (hfree : s.isStreamActive p.streamId = false) : AdmissionInv limit (s.pushStream p) := by
  have hpushed : AdmissionInv limit (s.pushStream { p with responseIsTaken := true }) := by
    refine h.congr rfl rfl rfl
      (.inr ⟨.pushed p.streamId (s.activeStream p.streamId), trivial, rfl⟩)
      fun hstack => ⟨hstack, ?_⟩
    refine hasRoom_of_length_le rfl ?_
    have hlen := length_activateStream hfree s.streams.length
    exact (Nat.le_succ _).trans_eq hlen.symm
  cases htaken : p.responseIsTaken
  · have heq : s.pushStream p =
        (s.pushStream { p with responseIsTaken := true }).deleteStream p.streamId false := by
      simp [SpdySession.pushStream, htaken]
    rw [heq]
    exact hpushed.deleteStream _ _
  · have heq : p = { p with responseIsTaken := true } := by rw [← htaken]
    rw [heq]
    exact hpushed

theorem AdmissionInv.onSyn (h : AdmissionInv limit s) (p : PushedSyn) :
    AdmissionInv limit (s.onSyn p) := by
  unfold SpdySession.onSyn
  split
  · exact h
  split
  · exact h
  rename_i hfree
  iterate 6
    split
    · exact h.deleteStream _ _
  exact h.pushStream (by simpa using hfree)

/-- **`SETTINGS_MAX_CONCURRENT_STREAMS`** sets the limit and looks at the requests that wait. -/
theorem AdmissionInv.handleSetting (h : AdmissionInv limit s) (id value : ℕ) :
    AdmissionInv limit (s.handleSetting limit id value) := by
  unfold SpdySession.handleSetting
  split
  · exact {
      limit_eq := fun v hv => by
        obtain rfl : value = v := by simpa [record, announcedStep] using hv
        rfl
      queues_eq := fun i => by simpa [record, waitingStep] using h.queues_eq i
      history := h.history.snoc trivial
      distinct := by simpa [record, waitingStep] using h.distinct
      perm := by simpa [record, issued, outcomes, waitingStep] using h.perm
      full := fun hstack => absurd (by simp) hstack }
  · exact h

/-! ### Requests -/

theorem AdmissionInv.distinct_waiting (h : AdmissionInv limit s) : Distinct (waiting s.log) :=
  h.distinct.sublist (List.sublist_append_left _ _)

theorem AdmissionInv.admitted_created (h : AdmissionInv limit s) (hroom : s.hasRoom = true)
    (r : PendingCreateStream) (streamId stream : ℕ) (replaced : Option ℕ) {log : List Entry}
    (hlog : lastAnnounced log = lastAnnounced s.log) :
    Admitted limit log
      (.created r streamId replaced (s.activateStream streamId stream).activeStreams.length) := by
  intro v hv hv0 hlimit
  rw [hlog] at hv
  have hmax := h.limit_eq v hv
  have hlen : (s.activateStream streamId stream).activeStreams.length ≤ s.activeStreams.length + 1 :=
    Nat.succ_le_succ (List.length_filter_le _ _)
  have hroom' := of_decide_eq_true hroom
  omega

theorem AdmissionInv.createStream_of_room (h : AdmissionInv limit s) (r : PendingCreateStream)
    (hroom : s.hasRoom = true) : AdmissionInv limit (s.createStream r) := by
  have hcreate : s.createStream r = (s.createStreamImpl r).record (.granted r) := if_pos hroom
  rw [hcreate]
  exact {
    limit_eq := fun v hv => h.limit_eq v (by simpa [record, announcedStep] using hv)
    queues_eq := fun i => by simpa [record, waitingStep] using h.queues_eq i
    history := (h.history.snoc (h.admitted_created hroom r _ _ _ rfl)).snoc trivial
    distinct := by simpa [record, waitingStep] using h.distinct
    perm := by
      have hperm : (issued s.log ++ [r]).Perm
          ((outcomes s.log ++ [r]) ++ (waiting s.log ++ s.pendingCallbackMap)) := by
        rw [append_assoc]
        refine (h.perm.append_right _).trans ?_
        rw [append_assoc]
        exact List.perm_append_comm.append_left _
      simpa [record, issued, outcomes, waitingStep] using hperm
    full := fun hstack _ i => h.full hstack hroom i }

theorem AdmissionInv.notMem_of_not_isRequested (h : AdmissionInv limit s)
    (hfresh : ¬ s.IsRequested spdyStream) :
    spdyStream ∉ (waiting s.log ++ s.pendingCallbackMap).map PendingCreateStream.spdyStream := by
  intro hmem
  rw [List.map_append] at hmem
  rcases List.mem_append.1 hmem with hmem | hmem
  · obtain ⟨w, hw, hws⟩ := mem_map.1 hmem
    refine hfresh (.inl ⟨w.priority, mem_map.2 ⟨w, ?_, hws⟩⟩)
    rw [h.queues_eq]
    exact mem_filter.2 ⟨hw, decide_eq_true rfl⟩
  · exact hfresh (.inr hmem)

theorem AdmissionInv.createStream_of_not_room (h : AdmissionInv limit s)
    (hfresh : ¬ s.IsRequested r.spdyStream) (hroom : ¬ s.hasRoom = true) : AdmissionInv limit (s.createStream r) := by
  have hcreate : s.createStream r = { s.record (.queued r) with
      createStreamQueues := Function.update s.createStreamQueues r.priority
        (s.createStreamQueues r.priority ++ [r]) } := if_neg hroom
  rw [hcreate]
  exact {
    limit_eq := fun v hv => h.limit_eq v (by simpa [record, announcedStep] using hv)
    queues_eq := fun i => by
      by_cases hi : i = r.priority
      · subst hi
        simp [record, waitingStep, h.queues_eq]
      · simp [record, waitingStep, hi, h.queues_eq, Ne.symm hi]
    history := h.history.snoc trivial
    distinct := by
      have hcons : Distinct (r :: (waiting s.log ++ s.pendingCallbackMap)) :=
        List.nodup_cons.2 ⟨h.notMem_of_not_isRequested hfresh, h.distinct⟩
      exact hcons.perm (by simpa [record, waitingStep] using perm_middle.symm)
    perm := by
      have hperm : (issued s.log ++ [r]).Perm
          (outcomes s.log ++ ((waiting s.log ++ [r]) ++ s.pendingCallbackMap)) := by
        refine (h.perm.append_right _).trans ?_
        rw [append_assoc, append_assoc, append_assoc]
        exact (List.perm_append_comm.append_left _).append_left _
      simpa [record, issued, outcomes, waitingStep] using hperm
    full := fun _ hroom' => absurd hroom' hroom }

theorem AdmissionInv.mem_waiting (h : AdmissionInv limit s)
    (hr : r ∈ s.createStreamQueues i) : r ∈ waiting s.log ∧ r.priority = i := by
  rw [h.queues_eq i] at hr
  exact ⟨List.mem_of_mem_filter hr, of_decide_eq_true (mem_filter.1 hr).2⟩

/-- **A request leaves the head of its queue**: the queues are what waits still. -/
theorem AdmissionInv.queues_pop (h : AdmissionInv limit s) (hr : s.createStreamQueues i = r :: rest)
    (j : RequestPriority) : (s.pop i).createStreamQueues j =
      ((waiting s.log).filter (·.spdyStream ≠ r.spdyStream)).filter (·.priority = j) := by
  have hmem := h.mem_waiting (hr ▸ mem_cons_self : r ∈ s.createStreamQueues i)
  rw [filter_comm, ← h.queues_eq j]
  by_cases hj : j = i
  · subst hj
    have hdistinct : Distinct (r :: rest) := by
      rw [← hr, h.queues_eq j]
      exact h.distinct_waiting.sublist filter_sublist
    rw [hr, List.filter_cons_of_neg (by simp), filter_eq_self_of_notMem (List.nodup_cons.1 hdistinct).1]
    simp [pop, hr]
  · -- the request has another priority than those in this queue
    have hnot : r.spdyStream ∉ (s.createStreamQueues j).map PendingCreateStream.spdyStream := by
      intro hk
      obtain ⟨w, hw, hwr⟩ := mem_map.1 hk
      have hwait := h.mem_waiting hw
      have heq : w = r := h.distinct_waiting.eq hwait.1 hmem.1 hwr
      exact hj (hwait.2.symm.trans (heq ▸ hmem.2))
    rw [filter_eq_self_of_notMem hnot]
    simp [pop, hj]

/-- **The first queue that is not empty** has the highest priority of all requests that wait. -/
theorem AdmissionInv.le_of_firstQueue (h : AdmissionInv limit s)
    (hi : s.firstQueue = some i) {w : PendingCreateStream} (hw : w ∈ waiting s.log) :
    i ≤ w.priority := by
  obtain ⟨_, n, hn, hni, hbefore⟩ := List.find?_eq_some_iff_getElem.1 hi
  by_contra hlt
  have hni' : n = i.val := by
    rw [← hni]
    simp
  have hlt' := Fin.lt_def.1 (not_le.1 hlt)
  have hne := hbefore w.priority.val (by omega)
  have hqueue : w ∈ s.createStreamQueues w.priority := by
    rw [h.queues_eq]
    exact mem_filter.2 ⟨hw, decide_eq_true rfl⟩
  simp [List.getElem_finRange] at hne
  exact nomatch hne ▸ hqueue

theorem AdmissionInv.admitted_refilled (h : AdmissionInv limit s) (hi : s.firstQueue = some i)
    (hr : s.createStreamQueues i = r :: rest) : Admitted limit s.log (.refilled r) := by
  have hmem := h.mem_waiting (hr ▸ mem_cons_self : r ∈ s.createStreamQueues i)
  refine ⟨fun w hw => ?_, ?_⟩
  · rw [hmem.2]
    exact h.le_of_firstQueue hi hw
  · rw [hmem.2, ← h.queues_eq i, hr]
    rfl

/-- **A request waits no longer**, but for the call of its callback. -/
theorem AdmissionInv.perm_moved (h : AdmissionInv limit s) (hr : r ∈ waiting s.log) :
    (waiting s.log ++ s.pendingCallbackMap).Perm
      ((waiting s.log).filter (·.spdyStream ≠ r.spdyStream) ++ r :: s.pendingCallbackMap) :=
  ((h.distinct_waiting.perm_cons_filter hr).append_right _).trans perm_middle.symm

theorem AdmissionInv.refillTurn (h : AdmissionInv limit s)
    (hstack : s.stack = .refill :: stack) (hroom : s.hasRoom = true)
    (hi : s.firstQueue = some i)
    (hr : s.createStreamQueues i = r :: rest) :
    AdmissionInv limit { ((s.pop i).record (.refilled r)).createStreamImpl r with
      pendingCallbackMap := r :: s.pendingCallbackMap } where
  limit_eq v hv := h.limit_eq v (by simpa [record, pop, announcedStep] using hv)
  queues_eq j := by simpa [record, pop, waitingStep] using h.queues_pop hr j
  history := by
    refine (h.history.snoc (h.admitted_refilled hi hr)).snoc ?_
    exact h.admitted_created hroom r _ _ _ (by simp [announcedStep])
  distinct := by
    have hmem := h.mem_waiting (hr ▸ mem_cons_self : r ∈ s.createStreamQueues i)
    simpa [record, pop, waitingStep] using h.distinct.perm (h.perm_moved hmem.1)
  perm := by
    have hmem := h.mem_waiting (hr ▸ mem_cons_self : r ∈ s.createStreamQueues i)
    have hperm := h.perm.trans ((h.perm_moved hmem.1).append_left _)
    simpa [record, pop, issued, outcomes, waitingStep] using hperm
  full hnot := absurd (by simp [record, pop, hstack]) hnot

theorem AdmissionInv.perm_waiting (h : AdmissionInv limit s) (hr : r ∈ waiting s.log) :
    (issued s.log).Perm ((outcomes s.log ++ [r]) ++
      ((waiting s.log).filter (·.spdyStream ≠ r.spdyStream) ++ s.pendingCallbackMap)) := by
  have hwait := h.distinct_waiting.perm_cons_filter hr
  rw [append_assoc]
  exact h.perm.trans ((hwait.append_right _).append_left _)

/-- **A request that is aborted** by `CloseAllStreams`. -/
theorem AdmissionInv.abort (h : AdmissionInv limit s) (hr : s.createStreamQueues i = r :: rest) :
    AdmissionInv limit
      { (s.pop i).record (.aborted r) with stack := .callback :: s.stack } where
  limit_eq v hv := h.limit_eq v (by simpa [record, pop, announcedStep] using hv)
  queues_eq j := by simpa [record, pop, waitingStep] using h.queues_pop hr j
  history := h.history.snoc trivial
  distinct := by
    simpa [record, pop, waitingStep] using h.distinct.sublist (filter_sublist.append_right _)
  perm := by
    have hmem := h.mem_waiting (hr ▸ mem_cons_self : r ∈ s.createStreamQueues i)
    simpa [record, pop, issued, outcomes, waitingStep] using h.perm_waiting hmem.1
  full hnot hroom j := by
    have hempty := h.full (fun hmem => hnot (mem_cons_of_mem _ hmem)) hroom i
    rw [hr] at hempty
    cases hempty

/-- **A request leaves `pending_callback_map_`** with an outcome. -/
theorem AdmissionInv.perm_pending (h : AdmissionInv limit s)
    (hr : s.pendingCallbackMap.find? (·.spdyStream = spdyStream) = some r) :
    (issued s.log).Perm ((outcomes s.log ++ [r]) ++ (waiting s.log ++
      s.pendingCallbackMap.filter (·.spdyStream ≠ spdyStream))) := by
  have hspdy : r.spdyStream = spdyStream := by simpa using List.find?_some hr
  subst hspdy
  have hpending : Distinct s.pendingCallbackMap := h.distinct.sublist (List.sublist_append_right _ _)
  have hsplit := hpending.perm_cons_filter (List.mem_of_find?_eq_some hr)
  rw [append_assoc]
  refine h.perm.trans (List.Perm.append_left _ ?_)
  exact (hsplit.append_left _).trans perm_middle

theorem AdmissionInv.waiting_pending (h : AdmissionInv limit s)
    (hr : s.pendingCallbackMap.find? (·.spdyStream = spdyStream) = some r) :
    waitingStep (waiting s.log) (.cancelled r) = waiting s.log := by
  refine filter_eq_self_of_notMem fun hmem => ?_
  have hboth := h.distinct
  rw [Distinct, List.map_append] at hboth
  exact List.disjoint_of_nodup_append hboth hmem
    (List.mem_map_of_mem (List.mem_of_find?_eq_some hr))

theorem AdmissionInv.invokeUserStreamCreationCallback (h : AdmissionInv limit s)
    (spdyStream : ℕ) : AdmissionInv limit (s.invokeUserStreamCreationCallback spdyStream) := by
  unfold SpdySession.invokeUserStreamCreationCallback
  split
  · exact h
  · rename_i r hr
    exact {
      limit_eq := fun v hv => h.limit_eq v (by simpa [record, announcedStep] using hv)
      queues_eq := fun i => by simpa [record, waitingStep] using h.queues_eq i
      history := h.history.snoc trivial
      distinct := by
        simpa [record, waitingStep] using h.distinct.sublist (filter_sublist.append_left _)
      perm := by simpa [record, issued, outcomes, waitingStep] using h.perm_pending hr
      full := fun hnot hroom i => h.full (fun hmem => hnot (mem_cons_of_mem _ hmem)) hroom i }

/-- **The requests of all queues for one place** are those that wait for it. -/
theorem AdmissionInv.removed_eq (h : AdmissionInv limit s) (spdyStream : ℕ) :
    ((List.finRange NUM_PRIORITIES).flatMap fun i =>
      (s.createStreamQueues i).filter (·.spdyStream = spdyStream)) =
        (waiting s.log).filter (·.spdyStream = spdyStream) := by
  have hqueue : ∀ i, (s.createStreamQueues i).filter (·.spdyStream = spdyStream) =
      ((waiting s.log).filter (·.spdyStream = spdyStream)).filter (·.priority = i) := by
    intro i
    rw [h.queues_eq, filter_comm]
  simp only [hqueue]
  rcases h.distinct_waiting.filter_eq spdyStream with hnil | ⟨r, _, _, hr⟩
  · rw [hnil]
    simp
  · rw [hr]
    have hone : ∀ p : RequestPriority,
        ((List.finRange NUM_PRIORITIES).flatMap fun i => if p = i then [r] else []) = [r] := by
      intro p
      match p with
      | 0 | 1 | 2 | 3 | 4 => rfl
    refine (List.flatMap_congr fun i _ => ?_).trans (hone r.priority)
    simp [List.filter_cons]

/-- **`CancelPendingCreateStreams`.** -/
theorem AdmissionInv.cancelPendingCreateStreams (h : AdmissionInv limit s) (spdyStream : ℕ) :
    AdmissionInv limit (s.cancelPendingCreateStreams spdyStream) := by
  unfold SpdySession.cancelPendingCreateStreams
  split
  · rename_i r hr
    exact {
      limit_eq := fun v hv => h.limit_eq v (by simpa [record, announcedStep] using hv)
      queues_eq := fun i => by simpa [record, h.waiting_pending hr] using h.queues_eq i
      history := h.history.snoc trivial
      distinct := by
        simpa [record, h.waiting_pending hr] using
          h.distinct.sublist (filter_sublist.append_left _)
      perm := by
        simpa [record, issued, outcomes, h.waiting_pending hr] using h.perm_pending hr
      full := h.full }
  · dsimp only
    rw [h.removed_eq]
    have hqueue : ∀ i, (s.createStreamQueues i).filter (·.spdyStream ≠ spdyStream) =
        ((waiting s.log).filter (·.spdyStream ≠ spdyStream)).filter (·.priority = i) := by
      intro i
      rw [h.queues_eq, filter_comm]
    rcases h.distinct_waiting.filter_eq spdyStream with hnil | ⟨r, hr, rfl, hfilter⟩
    · have hnot : spdyStream ∉ (waiting s.log).map PendingCreateStream.spdyStream := by
        intro hmem
        obtain ⟨w, hw, hws⟩ := mem_map.1 hmem
        exact List.filter_eq_nil_iff.1 hnil w hw (decide_eq_true hws)
      refine h.congr rfl (funext fun i => ?_) rfl (.inl ?_) fun hstack => ⟨hstack, id⟩
      · dsimp only
        rw [hqueue, filter_eq_self_of_notMem hnot, h.queues_eq]
      · simp [hnil]
    · rw [hfilter]
      exact {
        limit_eq := fun v hv => h.limit_eq v (by simpa [announcedStep] using hv)
        queues_eq := fun i => by simpa [waitingStep] using hqueue i
        history := h.history.snoc trivial
        distinct := by
          simpa [waitingStep] using h.distinct.sublist (filter_sublist.append_right _)
        perm := by simpa [issued, outcomes, waitingStep] using h.perm_waiting hr
        full := fun hnot hroom i => by
          show (s.createStreamQueues i).filter _ = []
          rw [h.full hnot hroom i]
          rfl }

/-! ### Steps and runs -/

theorem AdmissionInv.call (h : AdmissionInv limit s) {op : Op}
    (hstep : s.call limit op = some s') : AdmissionInv limit s' := by
  cases op with
  | createStream r =>
    simp only [SpdySession.call] at hstep
    split at hstep
    · cases hstep
    · rename_i hfresh
      cases hstep
      by_cases hroom : s.hasRoom = true
      · exact h.createStream_of_room r hroom
      · exact h.createStream_of_not_room hfresh hroom
  | cancelPendingCreateStreams spdyStream =>
    cases hstep
    exact h.cancelPendingCreateStreams spdyStream
  | closeStream streamId ok =>
    cases hstep
    exact h.deleteStream streamId ok
  | resetStream streamId =>
    cases hstep
    exact h.deleteStream streamId false
  | cancel stream =>
    cases hstep
    exact h.cancel stream
  | onSyn p =>
    cases hstep
    exact h.onSyn p
  | handleSetting id value =>
    cases hstep
    exact h.handleSetting id value
  | invokeUserStreamCreationCallback spdyStream =>
    cases hstep
    exact h.invokeUserStreamCreationCallback spdyStream
  | closeAllStreams =>
    cases hstep
    exact h.congr rfl rfl rfl (.inl rfl) fun hnot =>
      ⟨fun hmem => hnot (mem_cons_of_mem _ (mem_cons_of_mem _ hmem)), id⟩

/-- A frame that is not a loop over the queues leaves the stack, or another comes in its place. -/
theorem AdmissionInv.setStack (h : AdmissionInv limit s)
    (hstack : Frame.refill ∉ stack → Frame.refill ∉ s.stack) :
    AdmissionInv limit { s with stack := stack } :=
  h.congr rfl rfl rfl (.inl rfl) fun hnot => ⟨hstack hnot, id⟩

/-- **The loop over the queues is left** when there is no room, or no request. -/
theorem AdmissionInv.refilled (h : AdmissionInv limit s)
    (hnone : ¬ (s.hasRoom = true ∧ s.firstQueue ≠ none)) :
    AdmissionInv limit { s with stack := stack } where
  limit_eq := h.limit_eq
  queues_eq := h.queues_eq
  history := h.history
  distinct := h.distinct
  perm := h.perm
  full _ hroom i := by
    have hfirst : s.firstQueue = none := not_not.1 fun hsome => hnone ⟨hroom, hsome⟩
    have hempty := List.find?_eq_none.1 hfirst i (List.mem_finRange i)
    simpa using hempty

theorem AdmissionInv.run (h : AdmissionInv limit s) (hstep : s.run = some s') :
    AdmissionInv limit s' := by
  unfold SpdySession.run at hstep
  split at hstep
  · rename_i stack hstack
    cases hstep
    by_cases hturn : s.hasRoom = true ∧ s.firstQueue ≠ none
    · obtain ⟨i, r, hi, hr, hrefill⟩ := exists_refillTurn hturn.1 hturn.2
      obtain ⟨rest, hrest⟩ := List.head?_eq_some_iff.1 hr
      rw [hrefill]
      exact h.refillTurn hstack hturn.1 hi hrest
    · rw [refillTurn_eq_none hturn]
      exact h.refilled hturn
  · rename_i stack hstack
    cases hstep
    exact h.setStack fun hnot => by simpa [hstack] using hnot
  · rename_i i priorities stack hstack
    split at hstep
    · cases hstep
      exact h.setStack fun hnot => by simpa [hstack] using hnot
    · rename_i r rest hr
      cases hstep
      exact h.abort hr
  · rename_i stack hstack
    split at hstep
    · cases hstep
      exact h.setStack fun hnot => by simpa [hstack] using hnot
    · cases hstep
      exact h.deleteStream _ _
  · cases hstep

theorem AdmissionInv.step (h : AdmissionInv limit s) {e : SessionStep}
    (hstep : s.step limit e = some s') : AdmissionInv limit s' := by
  cases e with
  | call op =>
    simp only [SpdySession.step] at hstep
    split at hstep
    · exact h.call hstep
    · cases hstep
  | ret =>
    simp only [SpdySession.step] at hstep
    split at hstep
    · rename_i stack hstack
      cases hstep
      exact h.setStack fun hnot => by simpa [hstack] using hnot
    · cases hstep
  | run => exact h.run hstep

theorem admissionInv_of_run {initMax : ℕ} {tr : List SessionStep}
    (h : (sessionSystem initMax limit).Run tr s) : AdmissionInv limit s :=
  h.invariant (fun _ hs => hs ▸ admissionInv_new initMax) fun _ _ _ hi hst => hi.step hst

structure AdmissionOk (limit : ℕ) (s : SpdySession) : Prop where
  /-- streams are created within the limit, and requests leave the queues in order -/
  admitted : ∀ before e after, s.log = before ++ e :: after → Admitted limit before e
  /-- the limit in force is the announced one, or less -/
  limit_eq : ∀ v, lastAnnounced s.log = some v → s.maxConcurrentStreams = min v limit
  /-- the queues are the requests that wait -/
  queues_eq : ∀ i, s.createStreamQueues i = (waiting s.log).filter (·.priority = i)
  /-- none waits with room, unless the loop over the queues comes next -/
  full : Frame.refill ∉ s.stack → waiting s.log ≠ [] →
    s.maxConcurrentStreams ≠ 0 ∧ s.maxConcurrentStreams ≤ s.activeStreams.length
  /-- the requests that are under way are for different places -/
  distinct : Distinct (waiting s.log ++ s.pendingCallbackMap)
  /-- each has one outcome, waits, or waits for the call of its callback -/
  once : (issued s.log).Perm (outcomes s.log ++ (waiting s.log ++ s.pendingCallbackMap))

end SpdySession

end Chromium.Net.Spdy
