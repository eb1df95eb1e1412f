import Chromium.Lib.TransSys
import Mathlib.Data.Fintype.Basic

/-!
# The streams of a session

`net/spdy/spdy_session.cc`: a session hands out stream ids, keeps the active streams by their ids,
and lets a request for a stream wait while as many streams are active as the server allows.

Closing a stream calls its owner, who may call the session again, before the requests that wait are
looked at.  So what the session has still to do is kept on a stack, and a run goes in small steps:
a call from outside, the return of a callback, or one turn of a loop of the session.

Left out is the refusal of secure URLs when the certificate has an error.
-/

namespace Chromium.Net.Spdy

open Lib

abbrev NUM_PRIORITIES : ℕ := 5

/-- `RequestPriority`; 0 is `HIGHEST`. -/
abbrev RequestPriority := Fin NUM_PRIORITIES

/-- `PendingCreateStream`: where the stream is to be put, which tells requests apart, and the
priority. -/
structure PendingCreateStream where
  spdyStream : ℕ
  priority : RequestPriority
  deriving DecidableEq

/-- Of a `SpdyStream`, what concerns ids. -/
structure SessionStream where
  streamId : ℕ
  pushed : Bool
  cancelled : Bool
  deriving DecidableEq

inductive Frame
  /-- a callback returns -/
  | callback
  /-- `ProcessPendingCreateStreams` -/
  | refill
  /-- the loop of `CloseAllStreams` over the queues, with the priorities not yet looked at -/
  | abortQueues (priorities : List RequestPriority)
  /-- the loop of `CloseAllStreams` over the active streams -/
  | closeActive
  deriving DecidableEq

/-- What happened, as the callers and the server see it. -/
inductive Entry
  /-- a value of `SETTINGS_MAX_CONCURRENT_STREAMS` came -/
  | announced (value : ℕ)
  /-- `CreateStream` returned `ERR_IO_PENDING` -/
  | queued (request : PendingCreateStream)
  /-- `CreateStream` returned `OK` -/
  | granted (request : PendingCreateStream)
  /-- a request was taken from its queue, to be granted -/
  | refilled (request : PendingCreateStream)
  /-- the callback of a request that was taken from its queue was called -/
  | called (request : PendingCreateStream)
  /-- the callback of a request was called with `ERR_ABORTED` -/
  | aborted (request : PendingCreateStream)
  /-- a request was cancelled before its callback was called -/
  | cancelled (request : PendingCreateStream)
  /-- a stream was created for a client: the id, the stream that was active under it, and the number
  of active streams then -/
  | created (request : PendingCreateStream) (streamId : ℕ) (replaced : Option ℕ) (active : ℕ)
  /-- a pushed stream was activated: the id, and the stream that was active under it -/
  | pushed (streamId : ℕ) (replaced : Option ℕ)
  /-- `Cancel` of a stream reset the stream that was active under its id -/
  | resetBy (stream : ℕ) (victim : ℕ)
  deriving DecidableEq

/-- `SpdySession`, with its streams in the order in which they were made, what it has still to do,
and what happened so far. -/
structure SpdySession where
  activeStreams : List (ℕ × ℕ)
  unclaimedPushedStreams : List (String × ℕ)
  streams : List SessionStream
  streamHiWaterMark : ℕ
  maxConcurrentStreams : ℕ
  createStreamQueues : RequestPriority → List PendingCreateStream
  pendingCallbackMap : List PendingCreateStream
  stack : List Frame
  log : List Entry

/-- A `SYN_STREAM` from the server; what `GURL` says of its URL, and whether the response is taken. -/
structure PushedSyn where
  streamId : ℕ
  associatedStreamId : ℕ
  url : String
  urlIsValid : Bool
  sameOrigin : Bool
  responseIsTaken : Bool

/-- The requests that `CreateStream` was called with. -/
def issued (log : List Entry) : List PendingCreateStream :=
  log.filterMap fun
    | .queued r => some r
    | .granted r => some r
    | _ => none

namespace SpdySession

variable (s : SpdySession)

/-- The constructor, with `init_max_concurrent_streams_`. -/
def new (initMaxConcurrentStreams : ℕ) : SpdySession where
  activeStreams := []
  unclaimedPushedStreams := []
  streams := []
  streamHiWaterMark := 1
  maxConcurrentStreams := initMaxConcurrentStreams
  createStreamQueues _ := []
  pendingCallbackMap := []
  stack := []
  log := []

def activeStream (streamId : ℕ) : Option ℕ := s.activeStreams.lookup streamId

def isStreamActive (streamId : ℕ) : Bool := (s.activeStream streamId).isSome

def record (e : Entry) : SpdySession := { s with log := s.log ++ [e] }

def getNewStreamId : ℕ × SpdySession :=
  (s.streamHiWaterMark, { s with
      streamHiWaterMark :=
        if 0x7fff < s.streamHiWaterMark + 2 then 1 else s.streamHiWaterMark + 2 })

/-- A new `SpdyStream`. -/
def newStream (streamId : ℕ) (pushed : Bool) : ℕ × SpdySession :=
  (s.streams.length, { s with streams := s.streams ++ [⟨streamId, pushed, false⟩] })

def activateStream (streamId stream : ℕ) : SpdySession :=
  { s with activeStreams := (streamId, stream) :: s.activeStreams.filter (·.1 ≠ streamId) }

def createStreamImpl (r : PendingCreateStream) : SpdySession :=
  let (streamId, s₁) := s.getNewStreamId
  let (stream, s₂) := s₁.newStream streamId false
  let s₃ := s₂.activateStream streamId stream
  s₃.record (.created r streamId (s.activeStream streamId) s₃.activeStreams.length)

def hasRoom : Bool := s.maxConcurrentStreams = 0 ∨ s.activeStreams.length < s.maxConcurrentStreams

def createStream (r : PendingCreateStream) : SpdySession :=
  if s.hasRoom then (s.createStreamImpl r).record (.granted r)
  else
    { s.record (.queued r) with
      createStreamQueues := Function.update s.createStreamQueues r.priority
        (s.createStreamQueues r.priority ++ [r]) }

def firstQueue : Option RequestPriority :=
  (List.finRange NUM_PRIORITIES).find? fun i => s.createStreamQueues i ≠ []

def pop (i : RequestPriority) : SpdySession :=
  { s with
    createStreamQueues := Function.update s.createStreamQueues i (s.createStreamQueues i).tail }

/-- A turn of the loop of `ProcessPendingCreateStreams`, or `none` once it is left. -/
def refillTurn : Option SpdySession :=
  if s.hasRoom then
    s.firstQueue.bind fun i => (s.createStreamQueues i).head?.map fun r =>
      let s' := ((s.pop i).record (.refilled r)).createStreamImpl r
      { s' with pendingCallbackMap := r :: s'.pendingCallbackMap }
  else none

def cancelPendingCreateStreams (spdyStream : ℕ) : SpdySession :=
  match s.pendingCallbackMap.find? (·.spdyStream = spdyStream) with
  | some r =>
    { s.record (.cancelled r) with
      pendingCallbackMap := s.pendingCallbackMap.filter (·.spdyStream ≠ spdyStream) }
  | none =>
    let removed := (List.finRange NUM_PRIORITIES).flatMap fun i =>
      (s.createStreamQueues i).filter (·.spdyStream = spdyStream)
    { s with
      createStreamQueues i := (s.createStreamQueues i).filter (·.spdyStream ≠ spdyStream)
      log := s.log ++ removed.map .cancelled }

/-- `DeleteStream`, up to the call of `OnClose`; `ok` says whether the status is `OK`. -/
def deleteStream (streamId : ℕ) (ok : Bool) : SpdySession :=
  let s' :=
    if ok then s
    else
      { s with
        unclaimedPushedStreams := s.unclaimedPushedStreams.eraseP fun p =>
          (s.streams[p.2]?).map SessionStream.streamId = some streamId }
  if s'.isStreamActive streamId then
    { s' with
      activeStreams := s'.activeStreams.filter (·.1 ≠ streamId)
      stack := .callback :: .refill :: s'.stack }
  else s'

def closeStream (streamId : ℕ) (ok : Bool) : SpdySession := s.deleteStream streamId ok

def resetStream (streamId : ℕ) : SpdySession := s.deleteStream streamId false

def cancel (stream : ℕ) : SpdySession :=
  match s.streams[stream]? with
  | none => s
  | some st =>
    if st.cancelled then s
    else
      let s' := { s with streams := s.streams.set stream { st with cancelled := true } }
      match s'.activeStream st.streamId with
      | some victim => (s'.record (.resetBy stream victim)).resetStream st.streamId
      | none => s'

/-- `OnSyn` once its checks are passed. -/
def pushStream (p : PushedSyn) : SpdySession :=
  let (stream, s₁) := s.newStream p.streamId true
  let s₂ := { s₁ with
    unclaimedPushedStreams := (p.url, stream) :: s₁.unclaimedPushedStreams }
  let s₃ := (s₂.activateStream p.streamId stream).record
    (.pushed p.streamId (s.activeStream p.streamId))
  if p.responseIsTaken then s₃ else s₃.deleteStream p.streamId false

def onSyn (p : PushedSyn) : SpdySession :=
  if p.streamId % 2 ≠ 0 then s
  else if s.isStreamActive p.streamId then s
  else if p.associatedStreamId = 0 then s.resetStream p.streamId
  else if p.url = "" then s.resetStream p.streamId
  else if ¬ p.urlIsValid then s.resetStream p.streamId
  else if ¬ s.isStreamActive p.associatedStreamId then s.resetStream p.streamId
  else if ¬ p.sameOrigin then s.resetStream p.streamId
  else if (s.unclaimedPushedStreams.lookup p.url).isSome then s.resetStream p.streamId
  else s.pushStream p

def SETTINGS_MAX_CONCURRENT_STREAMS : ℕ := 4

/-- `HandleSettings` on one setting, with `max_concurrent_stream_limit_`. -/
def handleSetting (limit id value : ℕ) : SpdySession :=
  if id = SETTINGS_MAX_CONCURRENT_STREAMS then
    { s.record (.announced value) with
      maxConcurrentStreams := min value limit
      stack := .refill :: s.stack }
  else s

def invokeUserStreamCreationCallback (spdyStream : ℕ) : SpdySession :=
  match s.pendingCallbackMap.find? (·.spdyStream = spdyStream) with
  | none => s
  | some r =>
    { s.record (.called r) with
      pendingCallbackMap := s.pendingCallbackMap.filter (·.spdyStream ≠ spdyStream)
      stack := .callback :: s.stack }

def closeAllStreams : SpdySession :=
  { s with
    unclaimedPushedStreams := []
    stack := .abortQueues (List.finRange NUM_PRIORITIES) :: .closeActive :: s.stack }

/-! ### Steps -/

inductive Op
  | createStream (r : PendingCreateStream)
  | cancelPendingCreateStreams (spdyStream : ℕ)
  | closeStream (streamId : ℕ) (ok : Bool)
  | resetStream (streamId : ℕ)
  | cancel (stream : ℕ)
  | onSyn (p : PushedSyn)
  | handleSetting (id value : ℕ)
  | invokeUserStreamCreationCallback (spdyStream : ℕ)
  | closeAllStreams

/-- What happens next: a call from outside, the return of a callback, or a turn of a loop. -/
inductive SessionStep
  | call (op : Op)
  | ret
  | run

def IsRequested (spdyStream : ℕ) : Prop :=
  (∃ i, spdyStream ∈ (s.createStreamQueues i).map PendingCreateStream.spdyStream) ∨
    spdyStream ∈ s.pendingCallbackMap.map PendingCreateStream.spdyStream

instance (spdyStream : ℕ) : Decidable (s.IsRequested spdyStream) :=
  inferInstanceAs (Decidable (_ ∨ _))

/-- A call from outside.  Nobody asks for a stream at a place for which a request is under way. -/
def call (limit : ℕ) : Op → Option SpdySession
  | .createStream r => if s.IsRequested r.spdyStream then none else some (s.createStream r)
  | .cancelPendingCreateStreams spdyStream => some (s.cancelPendingCreateStreams spdyStream)
  | .closeStream streamId ok => some (s.closeStream streamId ok)
  | .resetStream streamId => some (s.resetStream streamId)
  | .cancel stream => some (s.cancel stream)
  | .onSyn p => some (s.onSyn p)
  | .handleSetting id value => some (s.handleSetting limit id value)
  | .invokeUserStreamCreationCallback spdyStream =>
    some (s.invokeUserStreamCreationCallback spdyStream)
  | .closeAllStreams => some s.closeAllStreams

def isOutside : Bool :=
  match s.stack with
  | [] => true
  | .callback :: _ => true
  | _ => false

/-- A turn of the loop on top of the stack, which stays there until it is left. -/
def run : Option SpdySession :=
  match s.stack with
  | .refill :: stack => some (s.refillTurn.getD { s with stack := stack })
  | .abortQueues [] :: stack => some { s with stack := stack }
  | .abortQueues (i :: priorities) :: stack =>
    match s.createStreamQueues i with
    | [] => some { s with stack := .abortQueues priorities :: stack }
    | r :: _ => some { (s.pop i).record (.aborted r) with stack := .callback :: s.stack }
  | .closeActive :: stack =>
    match (s.activeStreams.map Prod.fst).min? with
    | none => some { s with stack := stack }
    | some streamId => some (s.deleteStream streamId false)
  | _ => none

def step (limit : ℕ) : SessionStep → Option SpdySession
  | .call op => if s.isOutside then s.call limit op else none
  | .ret =>
    match s.stack with
    | .callback :: stack => some { s with stack := stack }
    | _ => none
  | .run => s.run

/-! ### What the operations do -/

variable {s}

/-- **`DeleteStream`**: the stream is gone, and its callback and then the waiting requests come
next; or there is none. -/
theorem exists_deleteStream (s : SpdySession) (streamId : ℕ) (ok : Bool) : ∃ unclaimed,
    s.deleteStream streamId ok = if s.isStreamActive streamId then
        { s with
          activeStreams := s.activeStreams.filter (·.1 ≠ streamId)
          unclaimedPushedStreams := unclaimed
          stack := .callback :: .refill :: s.stack }
      else { s with unclaimedPushedStreams := unclaimed } := by
  unfold deleteStream
  cases ok
  · exact ⟨_, rfl⟩
  · exact ⟨s.unclaimedPushedStreams, rfl⟩

theorem log_deleteStream (s : SpdySession) (streamId : ℕ) (ok : Bool) :
    (s.deleteStream streamId ok).log = s.log := by
  obtain ⟨_, h⟩ := s.exists_deleteStream streamId ok
  rw [h]
  split <;> rfl

section createStreamImpl

variable (s : SpdySession) (r : PendingCreateStream)

@[simp]
theorem maxConcurrentStreams_createStreamImpl :
    (s.createStreamImpl r).maxConcurrentStreams = s.maxConcurrentStreams :=
  rfl

@[simp]
theorem createStreamQueues_createStreamImpl :
    (s.createStreamImpl r).createStreamQueues = s.createStreamQueues :=
  rfl

@[simp]
theorem pendingCallbackMap_createStreamImpl :
    (s.createStreamImpl r).pendingCallbackMap = s.pendingCallbackMap :=
  rfl

@[simp]
theorem stack_createStreamImpl : (s.createStreamImpl r).stack = s.stack := rfl

@[simp]
theorem log_createStreamImpl : (s.createStreamImpl r).log = s.log ++
      [.created r s.streamHiWaterMark (s.activeStream s.streamHiWaterMark)
        (s.activateStream s.streamHiWaterMark s.streams.length).activeStreams.length] :=
  rfl

end createStreamImpl

theorem createStreamQueues_ne_nil {i : RequestPriority} (h : s.firstQueue = some i) :
    s.createStreamQueues i ≠ [] := by
  have hi := List.find?_some h
  simpa using hi

/-- **A turn of `ProcessPendingCreateStreams`** with room, and a request in a queue. -/
theorem exists_refillTurn (hroom : s.hasRoom = true) (hqueue : s.firstQueue ≠ none) :
    ∃ i r, s.firstQueue = some i ∧ (s.createStreamQueues i).head? = some r ∧
      s.refillTurn = some { ((s.pop i).record (.refilled r)).createStreamImpl r with
        pendingCallbackMap := r :: s.pendingCallbackMap } := by
  obtain ⟨i, hi⟩ := Option.ne_none_iff_exists'.1 hqueue
  obtain ⟨r, rest, hr⟩ := List.exists_cons_of_ne_nil (createStreamQueues_ne_nil hi)
  refine ⟨i, r, hi, by rw [hr]; rfl, ?_⟩
  rw [refillTurn, if_pos hroom, hi, Option.bind_some, hr]
  rfl

theorem refillTurn_eq_none (h : ¬ (s.hasRoom = true ∧ s.firstQueue ≠ none)) : s.refillTurn = none := by
  unfold refillTurn
  split
  · rename_i hroom
    rw [not_not.1 fun hq => h ⟨hroom, hq⟩, Option.bind_none]
  · rfl

end SpdySession

/-- A session, with `init_max_concurrent_streams_` and `max_concurrent_stream_limit_`. -/
def sessionSystem (initMax limit : ℕ) : TransSys SpdySession SpdySession.SessionStep where
  init s := s = .new initMax
  step s e s' := s.step limit e = some s'

theorem SpdySession.run_step {initMax limit : ℕ} {s s' : SpdySession} {tr : List SessionStep}
    {e : SessionStep} (h : (sessionSystem initMax limit).Run tr s) (hstep : s.step limit e = some s') :
    (sessionSystem initMax limit).Run (tr ++ [e]) s' :=
  .step h hstep

theorem SpdySession.run_step_restrict {initMax limit : ℕ} {P : SpdySession → SessionStep → Prop}
    {s s' : SpdySession} {tr : List SessionStep} {e : SessionStep}
    (h : ((sessionSystem initMax limit).restrict P).Run tr s) (hstep : s.step limit e = some s')
    (hP : P s e) : ((sessionSystem initMax limit).restrict P).Run (tr ++ [e]) s' :=
  .step h ⟨hP, hstep⟩

end Chromium.Net.Spdy
