import Chromium.Net.Spdy.SpdySession

/-!
# The ids of the streams

A session hands out the odd ids in turn and starts again with 1, whether or not the stream that had
an id is closed.  A stream is activated under its id in the place of one that is active there, and
`Cancel` resets what is active under the id of the stream.  Where neither happens, every stream has
its id to itself (`idsOk_of_run`).
-/

namespace Chromium.Net.Spdy

open Lib

namespace SpdySession

variable {s s' : SpdySession} {streamId stream : ℕ} {ok : Bool} {r : PendingCreateStream}

/-- A client's stream has an odd id, no stream is replaced when one is activated, and `Cancel` resets
only the stream that it is called for. -/
def EntryOk : Entry → Prop
  | .created _ streamId replaced _ => streamId % 2 = 1 ∧ replaced = none
  | .pushed _ replaced => replaced = none
  | .resetBy stream victim => victim = stream
  | _ => True

/-- **Every active stream is under its own id**, there is one for each id, and nothing that happened
hit another stream. -/
structure IdsOk (s : SpdySession) : Prop where
  own : ∀ p ∈ s.activeStreams, ∃ st, s.streams[p.2]? = some st ∧ st.streamId = p.1
  distinct : (s.activeStreams.map Prod.fst).Nodup
  log : ∀ e ∈ s.log, EntryOk e

/-- The id that is handed out next is not active; `Cancel` finds no other stream under the id. -/
def Meets (s : SpdySession) : SessionStep → Prop
  | .call (.createStream _) => s.hasRoom = true → s.activeStream s.streamHiWaterMark = none
  | .call (.cancel stream) => ∀ st victim, s.streams[stream]? = some st → st.cancelled = false →
      s.activeStream st.streamId = some victim → victim = stream
  | .run => ∀ stack, s.stack = .refill :: stack → s.hasRoom = true → s.firstQueue ≠ none →
      s.activeStream s.streamHiWaterMark = none
  | _ => True

structure IdInv (s : SpdySession) : Prop extends IdsOk s where
  odd : s.streamHiWaterMark % 2 = 1

theorem idInv_new (initMax : ℕ) : IdInv (new initMax) where
  own p hp := by cases hp
  distinct := List.nodup_nil
  log e he := by cases he
  odd := rfl

theorem IdInv.congr (h : IdInv s) (ha : s'.activeStreams = s.activeStreams)
    (hs : s'.streams = s.streams) (hh : s'.streamHiWaterMark = s.streamHiWaterMark)
    (hl : ∃ new, s'.log = s.log ++ new ∧ ∀ e ∈ new, EntryOk e) : IdInv s' := by
  obtain ⟨new, hl, hnew⟩ := hl
  refine ⟨⟨fun p hp => ?_, ?_, fun e he => ?_⟩, ?_⟩
  · rw [hs]
    exact h.own p (ha ▸ hp)
  · rw [ha]
    exact h.distinct
  · rw [hl] at he
    exact (List.mem_append.1 he).elim (h.log e) (hnew e)
  · rw [hh]
    exact h.odd

/-! ### The operations -/

theorem IdInv.activateStream (h : IdInv s) {st : SessionStream}
    (hst : s.streams[stream]? = some st) (hid : st.streamId = streamId) :
    IdInv (s.activateStream streamId stream) where
  own p hp := by
    rcases List.mem_cons.1 hp with rfl | hp
    · exact ⟨st, hst, hid⟩
    · exact h.own p (List.mem_of_mem_filter hp)
  distinct := by
    refine List.nodup_cons.2 ⟨fun hmem => ?_, h.distinct.sublist (List.filter_sublist.map _)⟩
    obtain ⟨p, hp, hpid⟩ := List.mem_map.1 hmem
    exact absurd hpid (of_decide_eq_true (List.mem_filter.1 hp).2)
  log := h.log
  odd := h.odd

theorem IdInv.newStream (h : IdInv s) (streamId : ℕ) (pushed : Bool) : IdInv (s.newStream streamId pushed).2 where
  own p hp := by
    obtain ⟨st, hst, hid⟩ := h.own p hp
    exact ⟨st, List.getElem?_append_left (List.getElem?_eq_some_iff.1 hst).1 ▸ hst, hid⟩
  distinct := h.distinct
  log := h.log
  odd := h.odd

theorem IdInv.getNewStreamId (h : IdInv s) : IdInv s.getNewStreamId.2 where
  own := h.own
  distinct := h.distinct
  log := h.log
  odd := by
    have := h.odd
    show (if 0x7fff < s.streamHiWaterMark + 2 then 1 else s.streamHiWaterMark + 2) % 2 = 1
    split <;> omega

theorem IdInv.record (h : IdInv s) {e : Entry} (he : EntryOk e) : IdInv (s.record e) :=
  h.congr rfl rfl rfl ⟨[e], rfl, fun _ he' => List.mem_singleton.1 he' ▸ he⟩

theorem getElem?_newStream (s : SpdySession) (streamId : ℕ) (pushed : Bool) :
    (s.newStream streamId pushed).2.streams[(s.newStream streamId pushed).1]? =
      some ⟨streamId, pushed, false⟩ := by
  simp [SpdySession.newStream]

theorem IdInv.createStreamImpl (h : IdInv s) (hfree : s.activeStream s.streamHiWaterMark = none)
    (r : PendingCreateStream) : IdInv (s.createStreamImpl r) := by
  have h' := ((h.getNewStreamId.newStream s.streamHiWaterMark false).activateStream
    (getElem?_newStream _ _ false) rfl)
  exact h'.record ⟨h.odd, hfree⟩

theorem IdInv.createStream (h : IdInv s)
    (hfree : s.hasRoom = true → s.activeStream s.streamHiWaterMark = none) :
    IdInv (s.createStream r) := by
  unfold SpdySession.createStream
  split
  · rename_i hroom
    exact (h.createStreamImpl (hfree hroom) r).record trivial
  · exact h.congr rfl rfl rfl ⟨[.queued r], rfl, by simp [EntryOk]⟩

theorem IdInv.cancelPendingCreateStreams (h : IdInv s) (spdyStream : ℕ) :
    IdInv (s.cancelPendingCreateStreams spdyStream) := by
  unfold SpdySession.cancelPendingCreateStreams
  split
  · rename_i r _
    exact h.congr rfl rfl rfl ⟨[.cancelled r], rfl, by simp [EntryOk]⟩
  · refine h.congr rfl rfl rfl ⟨_, rfl, fun e he => ?_⟩
    obtain ⟨r, -, rfl⟩ := List.mem_map.1 he
    trivial

theorem IdInv.deleteStream (h : IdInv s) : IdInv (s.deleteStream streamId ok) := by
  obtain ⟨unclaimed, hdelete⟩ := s.exists_deleteStream streamId ok
  rw [hdelete]
  split
  · exact ⟨⟨fun p hp => h.own p (List.mem_of_mem_filter hp),
      h.distinct.sublist (List.filter_sublist.map _), h.log⟩, h.odd⟩
  · exact h.congr rfl rfl rfl ⟨[], by simp, by simp⟩

/-- **`Cancel`** of a stream under whose id no other stream is active. -/
theorem IdInv.cancel (h : IdInv s) (hmet : ∀ st victim, s.streams[stream]? = some st →
    st.cancelled = false → s.activeStream st.streamId = some victim → victim = stream) :
    IdInv (s.cancel stream) := by
  unfold SpdySession.cancel
  split
  · exact h
  · rename_i st hst
    split
    · exact h
    · rename_i hcancelled
      have hset : IdInv { s with streams := s.streams.set stream { st with cancelled := true } } :=
        ⟨⟨fun p hp => by
          obtain ⟨st', hst', hid⟩ := h.own p hp
          by_cases heq : stream = p.2
          · subst heq
            obtain rfl : st = st' := Option.some.inj (hst.symm.trans hst')
            exact ⟨{ st with cancelled := true }, List.getElem?_set_self (List.getElem?_eq_some_iff.1 hst).1, hid⟩
          · exact ⟨st', (List.getElem?_set_ne heq).trans hst', hid⟩, h.distinct, h.log⟩, h.odd⟩
      dsimp only
      split
      · rename_i victim hvictim
        have hsame : EntryOk (.resetBy stream victim) :=
          hmet st victim hst (by simpa using hcancelled) hvictim
        exact (hset.record hsame).deleteStream
      · exact hset

/-- **A pushed stream** is activated under an id at which none is active. -/
theorem IdInv.onSyn (h : IdInv s) (p : PushedSyn) : IdInv (s.onSyn p) := by
  unfold SpdySession.onSyn
  split
  · exact h
  · split
    · exact h
    · rename_i hactive
      have hfree : s.activeStream p.streamId = none := by simpa [isStreamActive] using hactive
      have hreset : IdInv (s.resetStream p.streamId) := h.deleteStream
      have hpush : IdInv (s.pushStream p) := by
        have hnew : IdInv { (s.newStream p.streamId true).2 with
            unclaimedPushedStreams := (p.url, (s.newStream p.streamId true).1) ::
              (s.newStream p.streamId true).2.unclaimedPushedStreams } :=
          (h.newStream p.streamId true).congr rfl rfl rfl ⟨[], by simp, by simp⟩
        have hact := (hnew.activateStream (s.getElem?_newStream p.streamId true) rfl).record
          (e := .pushed p.streamId (s.activeStream p.streamId)) hfree
        dsimp only [SpdySession.pushStream]
        split
        · exact hact
        · exact hact.deleteStream
      repeat' split
      all_goals first | exact hreset | exact hpush

theorem IdInv.refillTurn (h : IdInv s)
    (hmet : s.hasRoom = true → s.firstQueue ≠ none → s.activeStream s.streamHiWaterMark = none)
    (ht : s.refillTurn = some s') : IdInv s' := by
  unfold SpdySession.refillTurn at ht
  split at ht
  · rename_i hroom
    obtain ⟨i, hi, ht⟩ := Option.bind_eq_some_iff.1 ht
    obtain ⟨r, hr, rfl⟩ := Option.map_eq_some_iff.1 ht
    have hpop : IdInv ((s.pop i).record (.refilled r)) :=
      h.congr rfl rfl rfl ⟨[.refilled r], rfl, by simp [EntryOk]⟩
    have hfree := hmet hroom (by simp [hi])
    exact (hpop.createStreamImpl hfree r).congr rfl rfl rfl ⟨[], by simp, by simp⟩
  · cases ht

theorem IdInv.step {limit : ℕ} {e : SessionStep} (h : IdInv s) (hmet : Meets s e)
    (hstep : s.step limit e = some s') : IdInv s' := by
  have hsame : ∀ {u : SpdySession}, u.activeStreams = s.activeStreams → u.streams = s.streams →
      u.streamHiWaterMark = s.streamHiWaterMark → u.log = s.log → IdInv u :=
    fun ha hs hh hl => h.congr ha hs hh ⟨[], by simp [hl], by simp⟩
  cases e with
  | call op =>
    simp only [SpdySession.step] at hstep
    split at hstep
    · cases op with
      | createStream r =>
        simp only [call] at hstep
        split at hstep
        · cases hstep
        · cases hstep
          exact h.createStream hmet
      | cancelPendingCreateStreams spdyStream =>
        cases hstep
        exact h.cancelPendingCreateStreams spdyStream
      | closeStream streamId ok | resetStream streamId =>
        cases hstep
        exact h.deleteStream
      | cancel stream =>
        cases hstep
        exact h.cancel hmet
      | onSyn p =>
        cases hstep
        exact h.onSyn p
      | handleSetting id value =>
        cases hstep
        unfold handleSetting
        split
        · exact h.congr rfl rfl rfl ⟨[.announced value], rfl, by simp [EntryOk]⟩
        · exact h
      | invokeUserStreamCreationCallback spdyStream =>
        cases hstep
        unfold invokeUserStreamCreationCallback
        split
        · exact h
        · rename_i r _
          exact h.congr rfl rfl rfl ⟨[.called r], rfl, by simp [EntryOk]⟩
      | closeAllStreams =>
        cases hstep
        exact hsame rfl rfl rfl rfl
    · cases hstep
  | ret =>
    simp only [SpdySession.step] at hstep
    split at hstep
    · cases hstep
      exact hsame rfl rfl rfl rfl
    · cases hstep
  | run =>
    simp only [SpdySession.step, run] at hstep
    split at hstep
    · rename_i stack hstack
      cases hstep
      cases ht : s.refillTurn with
      | none => exact hsame rfl rfl rfl rfl
      | some s' => exact h.refillTurn (hmet stack hstack) ht
    · cases hstep
      exact hsame rfl rfl rfl rfl
    · split at hstep
      · cases hstep
        exact hsame rfl rfl rfl rfl
      · rename_i r _ _
        cases hstep
        exact h.congr rfl rfl rfl ⟨[.aborted r], rfl, by simp [EntryOk]⟩
    · split at hstep
      · cases hstep
        exact hsame rfl rfl rfl rfl
      · cases hstep
        exact h.deleteStream
    · cases hstep

/-! ### Steps that do not meet the condition -/

theorem not_idsOk {e : Entry} (he : e ∈ s.log) (hbad : ¬ EntryOk e) : ¬ IdsOk s :=
  fun h => hbad (h.log e he)

theorem created_mem_createStreamImpl (s : SpdySession) (r : PendingCreateStream) :
    ∃ n, Entry.created r s.streamHiWaterMark (s.activeStream s.streamHiWaterMark) n ∈
      (s.createStreamImpl r).log :=
  ⟨_, List.mem_append_right _ (List.mem_singleton_self _)⟩

theorem not_entryOk_created {n victim : ℕ} (h : s.activeStream streamId = some victim) :
    ¬ EntryOk (.created r streamId (s.activeStream streamId) n) := by
  rw [h]
  exact fun he => Option.some_ne_none _ he.2

/-- **A step that does not meet the condition** replaces an active stream, or resets another. -/
theorem not_idsOk_of_step {limit : ℕ} {e : SessionStep} (hmet : ¬ Meets s e)
    (hstep : s.step limit e = some s') : ¬ IdsOk s' := by
  cases e with
  | ret => exact absurd trivial hmet
  | call op =>
    simp only [SpdySession.step] at hstep
    split at hstep
    · cases op with
      | createStream r =>
        obtain ⟨hroom, hactive⟩ := Classical.not_imp.1 hmet
        obtain ⟨victim, hvictim⟩ := Option.ne_none_iff_exists'.1 hactive
        simp only [call] at hstep
        split at hstep
        · cases hstep
        · cases hstep
          rw [SpdySession.createStream, if_pos hroom]
          obtain ⟨n, hn⟩ := s.created_mem_createStreamImpl r
          exact not_idsOk (List.mem_append_left _ hn) (not_entryOk_created hvictim)
      | cancel stream =>
        cases hstep
        simp only [Meets, not_forall] at hmet
        obtain ⟨st, victim, hst, hcancelled, hvictim, hne⟩ := hmet
        rw [SpdySession.cancel, hst]
        dsimp only
        rw [if_neg (by simp [hcancelled])]
        have hlookup : ({ s with
            streams := s.streams.set stream { st with cancelled := true } } : SpdySession).activeStream
              st.streamId = some victim := hvictim
        rw [hlookup]
        dsimp only
        refine not_idsOk (e := .resetBy stream victim) ?_ hne
        rw [SpdySession.resetStream, log_deleteStream]
        exact List.mem_append_right _ (List.mem_singleton_self _)
      | _ => exact absurd trivial hmet
    · cases hstep
  | run =>
    simp only [Meets, not_forall] at hmet
    obtain ⟨stack, hstack, hroom, hqueue, hactive⟩ := hmet
    obtain ⟨victim, hvictim⟩ := Option.ne_none_iff_exists'.1 hactive
    obtain ⟨i, r, -, -, ht⟩ := exists_refillTurn hroom hqueue
    simp only [SpdySession.step, run, hstack, ht] at hstep
    cases hstep
    obtain ⟨n, hn⟩ := ((s.pop i).record (.refilled r)).created_mem_createStreamImpl r
    exact not_idsOk hn (not_entryOk_created hvictim)

/-- **Every stream has its id to itself exactly where no id is handed out that is active, and no
stream is cancelled under whose id another is active.** -/
theorem idsOk_of_run (initMax limit : ℕ) :
    (∀ tr s, ((sessionSystem initMax limit).restrict Meets).Run tr s → IdsOk s) ∧
      ∀ s e s', (sessionSystem initMax limit).step s e s' → ¬ Meets s e → ¬ IdsOk s' := by
  refine ⟨fun tr s h => ?_, fun s e s' hstep hmet => not_idsOk_of_step hmet hstep⟩
  have hinv : IdInv s := by
    refine h.invariant (I := IdInv) ?_ ?_
    · rintro s rfl
      exact idInv_new initMax
    · rintro s e s' hs ⟨hmet, hstep⟩
      exact hs.step hmet hstep
  exact hinv.toIdsOk

/-- A stream is created and cancelled; and id 1 is handed out while it is active. -/
theorem idsOk_of_run_createCancel : (∃ s, ((sessionSystem 10 256).restrict Meets).Run
        [.call (.createStream ⟨0, 0⟩), .call (.cancel 0)] s ∧ .resetBy 0 0 ∈ s.log ∧ IdsOk s) ∧
      ∃ s s', (sessionSystem 10 256).step s (.call (.createStream ⟨1, 0⟩)) s' ∧ ¬ IdsOk s' := by
  constructor
  · have h0 : ((sessionSystem 10 256).restrict Meets).Run [] (new 10) := .init rfl
    have h1 := run_step_restrict (e := .call (.createStream ⟨0, 0⟩)) h0 rfl fun _ => rfl
    have h2 := run_step_restrict (e := .call (.cancel 0)) h1 rfl ?_
    · exact ⟨_, h2, by decide, (idsOk_of_run 10 256).1 _ _ h2⟩
    · rintro st victim hst - hvictim
      obtain rfl : (⟨1, false, false⟩ : SessionStream) = st := Option.some.inj hst
      exact (Option.some.inj hvictim).symm
  · have hstep : (sessionSystem 10 256).step
        { new 10 with activeStreams := [(1, 0)], streams := [⟨1, false, false⟩] }
        (.call (.createStream ⟨1, 0⟩)) _ := show SpdySession.step _ _ _ = some _ from rfl
    exact ⟨_, _, hstep, (idsOk_of_run 10 256).2 _ _ _ hstep fun hmet =>
      absurd (hmet rfl) (by decide)⟩

/-! ### Ids that come round -/

/-- A session whose first stream stays active, and that hands out `streamId` next. -/
def firstStays (streams : List SessionStream) (log : List Entry) (streamId : ℕ) : SpdySession where
  activeStreams := [(1, 0)]
  unclaimedPushedStreams := []
  streams := streams
  streamHiWaterMark := streamId
  maxConcurrentStreams := 10
  createStreamQueues _ := []
  pendingCallbackMap := []
  stack := []
  log := log

def nextId (streamId : ℕ) : ℕ := if 0x7fff < streamId + 2 then 1 else streamId + 2

def created (streams : List SessionStream) (log : List Entry) (streamId : ℕ) : SpdySession :=
  ((firstStays streams log streamId).createStreamImpl ⟨0, 0⟩).record (.granted ⟨0, 0⟩)

theorem step_createStream (streams : List SessionStream) (log : List Entry) (streamId : ℕ) :
    (firstStays streams log streamId).step 256 (.call (.createStream ⟨0, 0⟩)) =
      some (created streams log streamId) := by
  have hfree : ¬ (firstStays streams log streamId).IsRequested 0 := by
    simp [IsRequested, firstStays]
  show (if (firstStays streams log streamId).IsRequested 0 then none else _) = _
  rw [if_neg hfree]
  rfl

theorem run_close {streams : List SessionStream} {log : List Entry} {tr : List SessionStep}
    (hid : streamId ≠ 1) (h : (sessionSystem 10 256).Run tr (created streams log streamId)) :
    ∃ tr' streams' log', (sessionSystem 10 256).Run tr'
      (firstStays streams' log' (nextId streamId)) := by
  have hclosed : (created streams log streamId).step 256 (.call (.closeStream streamId true)) =
      some { firstStays (created streams log streamId).streams (created streams log streamId).log
        (nextId streamId) with stack := [.callback, .refill] } := by
    simp [SpdySession.step, call, isOutside, SpdySession.closeStream, SpdySession.deleteStream,
      created, SpdySession.createStreamImpl, SpdySession.record, firstStays,
      SpdySession.getNewStreamId, SpdySession.newStream, SpdySession.activateStream,
      isStreamActive, activeStream, hid.symm]
    rfl
  have hret := run_step (e := .ret) (run_step h hclosed) rfl
  exact ⟨_, _, _, run_step (e := .run) hret rfl⟩

/-- **The ids are handed out in turn** while the first stream stays active. -/
theorem exists_run_firstStays (k : ℕ) (hk : k < 0x3fff) : ∃ tr streams log,
    (sessionSystem 10 256).Run tr (firstStays streams log (2 * k + 3)) := by
  induction k with
  | zero =>
    have h0 : (sessionSystem 10 256).Run [] (new 10) := .init rfl
    exact ⟨_, _, _, run_step (e := .call (.createStream ⟨0, 0⟩)) h0 rfl⟩
  | succ k ih =>
    obtain ⟨tr, streams, log, hrun⟩ := ih (by omega)
    have hcreate := run_step hrun (step_createStream streams log (2 * k + 3))
    obtain ⟨tr', streams', log', hclose⟩ := run_close (by omega) hcreate
    have hnext : nextId (2 * k + 3) = 2 * (k + 1) + 3 := if_neg (by omega)
    rw [hnext] at hclose
    exact ⟨tr', streams', log', hclose⟩

/-- **Id 1 is handed out a second time** while the first stream is active: 16383 streams come and go
meanwhile. -/
theorem not_idsOk_wrap : ¬ ∀ tr s, (sessionSystem 10 256).Run tr s → IdsOk s := by
  intro hall
  obtain ⟨tr, streams, log, hrun⟩ := exists_run_firstStays 0x3ffe (by omega)
  have hcreate := run_step hrun (step_createStream streams log _)
  obtain ⟨tr', streams', log', hclose⟩ := run_close (by omega) hcreate
  have hagain := run_step hclose (step_createStream streams' log' 1)
  refine not_idsOk_of_step (s := firstStays streams' log' 1) ?_ (step_createStream streams' log' 1)
    (hall _ _ hagain)
  intro hmet
  exact absurd (hmet rfl) (by simp [activeStream, firstStays])

end SpdySession

end Chromium.Net.Spdy
