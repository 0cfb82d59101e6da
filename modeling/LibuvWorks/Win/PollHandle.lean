import LibuvWorks.Lib.Transition
import Mathlib.Data.Finset.SDiff

/-!
# Poll handles: `win/poll.c`

A poll handle has two requests, so that one can be submitted for new events while the other still
waits for old ones. In fast mode the kernel polls, in slow mode a thread of the pool calls `select`.
-/
namespace LibuvWorks.Win

/-- `UV_READABLE`, `UV_WRITABLE` and `UV_DISCONNECT` -/
inductive PollEvent where
  | readable : PollEvent
  | writable : PollEvent
  | disconnect : PollEvent
  deriving DecidableEq

/-- The bits that `afd.sys` reports. -/
inductive AfdEvent where
  | receive : AfdEvent
  | disconnect : AfdEvent
  | accept : AfdEvent
  | abort : AfdEvent
  | send : AfdEvent
  | connectFail : AfdEvent
  | localClose : AfdEvent
  deriving DecidableEq

/-- How a request ends in fast mode: with an error, or with `NumberOfHandles` and
`Handles[0].Events` of its `AFD_POLL_INFO`. -/
inductive AfdResult where
  | failed (error : ℕ) : AfdResult
  | polled (numberOfHandles : ℕ) (events : Finset AfdEvent) : AfdResult

/-- What `select` returns: `SOCKET_ERROR`, or a number of sockets with what is left of the three
sets. -/
inductive SelectResult where
  | failed (error : ℕ) : SelectResult
  | returned (r : ℕ) (rfds wfds efds : Bool) : SelectResult
  deriving DecidableEq

/-- `reported_events` of the thread. -/
def SelectResult.reportedEvents : SelectResult → Finset PollEvent
  | .failed _ => ∅
  | .returned r rfds wfds efds =>
    if 0 < r then
      (if rfds then {.readable} else ∅) ∪ (if wfds then {.writable} else if efds then {.writable} else ∅)
    else ∅

/-- What a completion of a slow request stands for: a call of `select`, or a work item that could
not be queued. -/
inductive SlowOutcome where
  | selected (result : SelectResult) : SlowOutcome
  | notQueued (error : ℕ) : SlowOutcome
  deriving DecidableEq

/-- Who has a request: nobody, the kernel with its result to come, or a thread: not begun, with the
readable set filled in, in `select`, back from it, with the result stored, and with it posted. -/
inductive ReqWork where
  | idle : ReqWork
  | kernel : ReqWork
  | queued : ReqWork
  | filling (rfds : Bool) : ReqWork
  | selecting (rfds wfds : Bool) : ReqWork
  | returned (result : SelectResult) : ReqWork
  | stored (result : SelectResult) : ReqWork
  | posted (outcome : SlowOutcome) : ReqWork
  deriving DecidableEq

/-- `poll_req_1` and `poll_req_2` -/
inductive ReqSlot where
  | one : ReqSlot
  | two : ReqSlot
  deriving DecidableEq

def ReqSlot.other : ReqSlot → ReqSlot
  | .one => .two
  | .two => .one

/-- A request with its fields of the handle. `status` and `high` are `Internal` and `InternalHigh`
of the overlapped structure; the status is null for `STATUS_SUCCESS`. -/
structure PollReq where
  submittedEvents : Finset PollEvent
  maskEvents : Finset PollEvent
  status : Option ℕ
  high : Finset PollEvent
  work : ReqWork

/-- Between the functions of the loop, or in `poll_cb` with its arguments. -/
inductive PollPhase where
  | idle : PollPhase
  | pollCb (error : Option ℕ) (events : Finset PollEvent) : PollPhase
  deriving DecidableEq

/-- `uv_poll_t`. `unattended` records that an error was reported and `uv__handle_start`,
`uv__handle_stop` or `uv__handle_closing` has not run since. -/
structure PollHandle where
  slow : Bool
  events : Finset PollEvent
  req1 : PollReq
  req2 : PollReq
  active : Bool
  closing : Bool
  endgameQueued : Bool
  closed : Bool
  phase : PollPhase
  unattended : Bool

def wsaeintr : ℕ := 10004

namespace PollHandle

variable (s : PollHandle)

def req : ReqSlot → PollReq
  | .one => s.req1
  | .two => s.req2

def setReq (r : PollReq) : ReqSlot → PollHandle
  | .one => { s with req1 := r }
  | .two => { s with req2 := r }

def uncovered : Finset PollEvent :=
  s.events \ (s.req1.submittedEvents ∪ s.req2.submittedEvents)

def uvWantEndgame : PollHandle := { s with endgameQueued := true }

/-! ### Submitting -/

def freeSlot : Option ReqSlot :=
  if s.req1.submittedEvents = ∅ then some .one
  else if s.req2.submittedEvents = ∅ then some .two else none

def takeOver (slot : ReqSlot) : PollHandle :=
  let s := s.setReq { s.req slot with submittedEvents := s.events, maskEvents := ∅ } slot
  s.setReq { s.req slot.other with maskEvents := s.events } slot.other

/-- `uv__fast_poll_submit_poll_req`; a request that the kernel refuses is completed by the loop. -/
def uvFastPollSubmitPollReq : PollHandle :=
  match s.freeSlot with
  | some slot =>
    let s := s.takeOver slot
    s.setReq { s.req slot with status := none, high := ∅, work := .kernel } slot
  | none => s

/-- `uv__slow_poll_submit_poll_req`; `none` is an assertion that fails, and `queueError` is the
error of `QueueUserWorkItem`. -/
def uvSlowPollSubmitPollReq (queueError : Option ℕ) : Option PollHandle :=
  match s.freeSlot with
  | some slot =>
    let s := s.takeOver slot
    match queueError with
    | none => some (s.setReq { s.req slot with work := .queued } slot)
    | some error =>
      some (s.setReq { s.req slot with status := some error, work := .posted (.notQueued error) } slot)
  | none => none

def submit (queueError : Option ℕ) : Option PollHandle :=
  if s.slow then s.uvSlowPollSubmitPollReq queueError else some s.uvFastPollSubmitPollReq

/-! ### Processing -/

/-- What `uv__fast_poll_process_poll_req` and `uv__slow_poll_process_poll_req` do after
`poll_cb`. -/
def afterPollCb (queueError : Option ℕ) : Option PollHandle :=
  let s := { s with phase := .idle }
  if s.uncovered ≠ ∅ then s.submit queueError
  else if s.closing ∧ s.req1.submittedEvents = ∅ ∧ s.req2.submittedEvents = ∅ then
    some s.uvWantEndgame
  else some s

def clear (slot : ReqSlot) : PollHandle :=
  s.setReq { s.req slot with submittedEvents := ∅, work := .idle } slot

/-- `poll_cb` is called for an error. -/
def reportError (error : ℕ) : PollHandle :=
  { s with events := ∅, phase := .pollCb (some error) ∅, unattended := true }

/-- `poll_cb` is called if there is something to report. -/
def reportEvents (queueError : Option ℕ) (events : Finset PollEvent) : Option PollHandle :=
  if events ≠ ∅ then some { s with phase := .pollCb none events } else s.afterPollCb queueError

/-- The events of `uv_poll_t` for those of `afd.sys`. -/
def fromAfd (afd : Finset AfdEvent) : Finset PollEvent :=
  (if afd ∩ {.receive, .disconnect, .accept, .abort} ≠ ∅ then
    if .disconnect ∈ afd then {.readable, .disconnect} else {.readable}
  else ∅) ∪ (if afd ∩ {.send, .connectFail} ≠ ∅ then {.writable} else ∅)

/-- `uv__fast_poll_process_poll_req` up to `poll_cb`. -/
def uvFastPollProcessPollReq (slot : ReqSlot) (result : AfdResult) : Option PollHandle :=
  let maskEvents := (s.req slot).maskEvents
  let s := s.clear slot
  match result with
  | .failed error =>
    if error ≠ wsaeintr ∧ s.events ≠ ∅ then some (s.reportError error) else s.afterPollCb none
  | .polled numberOfHandles afd =>
    if 1 ≤ numberOfHandles then
      let events := fromAfd afd ∩ (s.events \ maskEvents)
      let s := if .localClose ∈ afd then { s with events := ∅, active := false, unattended := false } else s
      s.reportEvents none events
    else s.afterPollCb none

/-- `uv__slow_poll_process_poll_req` up to `poll_cb`. -/
def uvSlowPollProcessPollReq (slot : ReqSlot) (queueError : Option ℕ) : Option PollHandle :=
  let maskEvents := (s.req slot).maskEvents
  let s := s.clear slot
  match (s.req slot).status with
  | some error =>
    if s.events ≠ ∅ then some (s.reportError error) else s.afterPollCb queueError
  | none => s.reportEvents queueError ((s.req slot).high ∩ (s.events \ maskEvents))

def uvProcessPollReq (slot : ReqSlot) (result : AfdResult) (queueError : Option ℕ) :
    Option PollHandle :=
  if s.slow then s.uvSlowPollProcessPollReq slot queueError else s.uvFastPollProcessPollReq slot result

/-! ### Calls of the user -/

/-- The common part of `uv__fast_poll_set` and `uv__slow_poll_set`; `allowed` are the events that
the mode knows. -/
def pollSet (allowed events : Finset PollEvent) (queueError : Option ℕ) : Option PollHandle :=
  if s.closing then none
  else if ¬ events ⊆ allowed then none
  else
    let s := { s with events, active := events ≠ ∅, unattended := false }
    if s.uncovered ≠ ∅ then s.submit queueError else some s

def uvFastPollSet (events : Finset PollEvent) : Option PollHandle :=
  s.pollSet {.readable, .writable, .disconnect} events none

def uvSlowPollSet (events : Finset PollEvent) (queueError : Option ℕ) : Option PollHandle :=
  s.pollSet {.readable, .writable} events queueError

def uvPollStart (events : Finset PollEvent) (queueError : Option ℕ) : Option PollHandle :=
  if s.slow then s.uvSlowPollSet events queueError else s.uvFastPollSet events

def uvPollStop : Option PollHandle :=
  if s.slow then s.uvSlowPollSet ∅ none else s.uvFastPollSet ∅

/-- `uv__fast_poll_close` and `uv__slow_poll_close`; the poll that makes the outstanding requests of
fast mode return has no other effect. -/
def uvPollClose : Option PollHandle :=
  if s.closing then none
  else
    let s := { s with events := ∅, closing := true, active := false, unattended := false }
    some (if s.req1.submittedEvents = ∅ ∧ s.req2.submittedEvents = ∅ then s.uvWantEndgame else s)

def uvPollEndgame : Option PollHandle :=
  let s := { s with endgameQueued := false }
  if s.closing = false ∨ s.closed ∨ s.req1.submittedEvents ≠ ∅ ∨ s.req2.submittedEvents ≠ ∅ then none
  else some { s with closed := true }

/-! ### The thread of a slow request -/

/-- `SET_REQ_ERROR(&handle->poll_req_1, …)` of `uv__slow_poll_thread_proc`, or
`SET_REQ_SUCCESS(req)` and `InternalHigh`. -/
def store (slot : ReqSlot) : SelectResult → PollHandle
  | .failed error => { s with req1 := { s.req1 with status := some error } }
  | .returned r rfds wfds efds =>
    let high := (SelectResult.returned r rfds wfds efds).reportedEvents
    s.setReq { s.req slot with status := none, high } slot

/-- The next step of `uv__slow_poll_thread_proc`; `result` is what `select` returns. -/
def uvSlowPollThreadProc (slot : ReqSlot) (result : SelectResult) : PollHandle :=
  let move := fun s : PollHandle => fun work => s.setReq { s.req slot with work } slot
  match (s.req slot).work with
  | .queued => move s (.filling (.readable ∈ s.events))
  | .filling rfds => move s (.selecting rfds (.writable ∈ s.events))
  | .selecting _ _ => move s (.returned result)
  | .returned result => move (s.store slot result) (.stored result)
  | .stored result => move s (.posted (.selected result))
  | _ => s

/-! ### Events -/

/-- The loop handles a completion, `poll_cb` returns, the endgame runs, the user calls, or a thread
goes on. -/
inductive Event where
  | done (slot : ReqSlot) (result : AfdResult) (queueError : Option ℕ) : Event
  | returned (queueError : Option ℕ) : Event
  | endgame : Event
  | start (events : Finset PollEvent) (queueError : Option ℕ) : Event
  | stop : Event
  | close : Event
  | thread (slot : ReqSlot) (result : SelectResult) : Event

/-- The thread of the request has not posted its completion yet. -/
def running (slot : ReqSlot) : Bool :=
  match (s.req slot).work with
  | .idle => false
  | .kernel => false
  | .posted _ => false
  | _ => true

/-- In fast mode the kernel may complete the request, in slow mode its thread has. -/
def isDone (slot : ReqSlot) : Bool :=
  match (s.req slot).work with
  | .kernel => !s.slow
  | .posted _ => true
  | _ => false

/-- What `select` may return: an error that is not 0, or sets within those it was given. -/
def MayReturn (slot : ReqSlot) : SelectResult → Prop
  | .failed error => error ≠ 0
  | .returned _ rfds wfds efds =>
    match (s.req slot).work with
    | .selecting readable writable =>
      (rfds = true → readable = true) ∧ (wfds = true → writable = true) ∧
        (efds = true → writable = true)
    | _ => True

instance (slot : ReqSlot) (result : SelectResult) : Decidable (s.MayReturn slot result) := by
  unfold MayReturn
  split
  · infer_instance
  · split <;> infer_instance

/-- The events that can happen. The loop processes a completion when no callback runs, and the user
calls until the handle is closed. -/
def Enabled : Event → Prop
  | .done slot _ queueError => s.phase = .idle ∧ s.isDone slot = true ∧ queueError ≠ some 0
  | .returned queueError => s.phase ≠ .idle ∧ queueError ≠ some 0
  | .endgame => s.phase = .idle ∧ s.endgameQueued = true
  | .start events queueError =>
    s.closing = false ∧ (s.slow = true → .disconnect ∉ events) ∧ queueError ≠ some 0
  | .stop => s.closing = false
  | .close => s.closing = false
  | .thread slot result => s.running slot = true ∧ s.MayReturn slot result

instance (e : Event) : Decidable (s.Enabled e) := by
  cases e <;> unfold Enabled <;> infer_instance

def next : Event → Option PollHandle
  | .done slot result queueError => s.uvProcessPollReq slot result queueError
  | .returned queueError => s.afterPollCb queueError
  | .endgame => s.uvPollEndgame
  | .start events queueError => s.uvPollStart events queueError
  | .stop => s.uvPollStop
  | .close => s.uvPollClose
  | .thread slot result => some (s.uvSlowPollThreadProc slot result)

def step (e : Event) : Option PollHandle := if s.Enabled e then s.next e else none

def Step (s : PollHandle) (e : Event) (t : PollHandle) : Prop := s.step e = some t

/-- A handle after `uv_poll_init_socket`. -/
structure Init (s : PollHandle) : Prop where
  events : s.events = ∅
  submittedEvents : ∀ slot, (s.req slot).submittedEvents = ∅
  status : ∀ slot, (s.req slot).status = none
  work : ∀ slot, (s.req slot).work = .idle
  active : s.active = false
  closing : s.closing = false
  endgameQueued : s.endgameQueued = false
  closed : s.closed = false
  phase : s.phase = .idle
  unattended : s.unattended = false

end PollHandle

end LibuvWorks.Win
