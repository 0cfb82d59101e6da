import LibuvWorks.Lib.Transition

/-!
# Reads that can be paused: `win/pipe.c`

A non-overlapped pipe is read by a thread that blocks in a `ReadFile` of no bytes. The thread sets
`readfile_thread` under `readfile_mutex` and clears it without the mutex; the loop pauses the thread
by cancelling its `ReadFile` until `readfile_thread` is null, with the mutex held. A critical
section of the thread is one step. Left out are `activecnt`, the callbacks of writes, and the eof
timer, which does nothing for such a pipe: the `overlapped` of its read request is never pending.
-/
namespace LibuvWorks.Win

/-- How `ReadFile` returns; `aborted` is `ERROR_OPERATION_ABORTED`. -/
inductive ReadFileResult where
  | success : ReadFileResult
  | aborted : ReadFileResult
  | failed : ReadFileResult
  deriving DecidableEq

/-- Where `uv_pipe_zero_readfile_thread_proc` is, from before its test of the flag to before its
`POST_COMPLETION_FOR_REQ`; `hThread` says that its `hThread` is not null, and `success` what
`result` is. -/
inductive ZeroThread where
  | idle : ZeroThread
  | begins : ZeroThread
  | locking : ZeroThread
  | reading (hThread : Bool) : ZeroThread
  | returned (hThread : Bool) (result : ReadFileResult) : ZeroThread
  | relocking (hThread : Bool) : ZeroThread
  | finishing (hThread success : Bool) : ZeroThread
  | unregistered (success : Bool) : ZeroThread
  | posting (success : Bool) : ZeroThread
  deriving DecidableEq

namespace ZeroThread

/-- The next step of the thread takes the mutex. -/
def locks : ZeroThread → Bool
  | .locking => true
  | .relocking _ => true
  | .unregistered _ => true
  | _ => false

/-- The thread will still take the mutex. -/
def mayLock : ZeroThread → Bool
  | .reading hThread => hThread
  | .returned hThread _ => hThread
  | .finishing hThread _ => hThread
  | thread => thread.locks

/-- `ReadFile` is in progress. -/
def reads : ZeroThread → Bool
  | .reading _ => true
  | _ => false

def alive : ZeroThread → Bool
  | .idle => false
  | _ => true

end ZeroThread

/-- The call that pauses the thread: `uv__pipe_stop_read` of `uv_read_stop` or of `uv_pipe_close`,
or `uv__pipe_getname`. -/
inductive PauseFor where
  | stop : PauseFor
  | close : PauseFor
  | name : PauseFor
  deriving DecidableEq

/-- The loop is not in a pause, spins in `uv__pipe_pause_read`, or is between that and
`uv__pipe_unpause_read`. -/
inductive PauseLoop where
  | free : PauseLoop
  | pausing (call : PauseFor) : PauseLoop
  | paused (call : PauseFor) : PauseLoop
  deriving DecidableEq

/-- The callback that runs: none, that of a read, after which the code may queue another one, or
that of the shutdown request. -/
inductive PipeCallback where
  | none : PipeCallback
  | readCb (again : Bool) : PipeCallback
  | shutdownCb : PipeCallback
  deriving DecidableEq

/-- What `uv_process_pipe_read_req` finds in the pipe. -/
inductive PeekOutcome where
  | failed : PeekOutcome
  | empty : PeekOutcome
  | data : PeekOutcome

/-- A `uv_pipe_t` that is a non-overlapped connection. `handleOpen` says that its handle is valid,
`readfileThread` that `readfile_thread` is not null, and `cancelled` that the `ReadFile` in progress
has been cancelled. `completions` has the posted completions of the read request with their success,
and `shutdowns` counts the shutdown requests that are flushed or posted. -/
structure ZeroRead where
  cancelable : Bool
  reading : Bool
  readPending : Bool
  readable : Bool
  writable : Bool
  closing : Bool
  closed : Bool
  endgameQueued : Bool
  shutdownReq : Bool
  handleOpen : Bool
  writeReqsPending : ℕ
  shutdowns : ℕ
  reqsPending : ℕ
  readfileThread : Bool
  thread : ZeroThread
  cancelled : Bool
  completions : List Bool
  loop : PauseLoop
  callback : PipeCallback

namespace ZeroRead

variable (s : ZeroRead)

def wantEndgame : ZeroRead := { s with endgameQueued := true }

/-- `DECREASE_PENDING_REQ_COUNT` at the end of a function. -/
def decreasePending : Option ZeroRead :=
  if s.reqsPending = 0 then none
  else
    let s := { s with reqsPending := s.reqsPending - 1, callback := .none }
    some (if s.closing ∧ s.reqsPending = 0 then s.wantEndgame else s)

/-! ### The thread -/

/-- The loop holds `readfile_mutex`. -/
def held : Bool := s.cancelable && s.loop != .free

/-- A step of `uv_pipe_zero_readfile_thread_proc`. `duplicated` says whether `DuplicateHandle`
succeeds, and `result` is what `ReadFile` returns; `none` is an assertion that fails, or a mutex
that has been destroyed. -/
def threadStep (duplicated : Bool) (result : ReadFileResult) : Option ZeroRead :=
  match s.thread with
  | .idle => none
  | .begins =>
    if s.cancelable then some { s with thread := .locking }
    else some { s with thread := .reading false, cancelled := false }
  | .locking =>
    if s.cancelable = false then none
    else
      some { s with
        readfileThread := s.readfileThread || duplicated
        thread := .reading duplicated
        cancelled := false }
  | .reading hThread => some { s with thread := .returned hThread result }
  | .returned hThread result =>
    if result = .aborted ∧ s.cancelable then
      if s.reading then some { s with readfileThread := false, thread := .relocking hThread }
      else some { s with thread := .finishing hThread true }
    else some { s with thread := .finishing hThread (result = .success) }
  | .relocking hThread =>
    if s.cancelable = false then none
    else some { s with readfileThread := hThread, thread := .reading hThread, cancelled := false }
  | .finishing hThread success =>
    if hThread then
      if s.readfileThread = false then none
      else some { s with readfileThread := false, thread := .unregistered success }
    else some { s with thread := .posting success }
  | .unregistered success =>
    if s.cancelable = false then none else some { s with thread := .posting success }
  | .posting success =>
    some { s with thread := .idle, completions := s.completions ++ [success] }

/-! ### The loop -/

def uvPipePauseRead (call : PauseFor) : ZeroRead :=
  if s.cancelable then { s with loop := .pausing call } else { s with loop := .paused call }

/-- A turn of the loop in `uv__pipe_pause_read`; `hit` says whether `CancelSynchronousIo` finds a
`ReadFile` in progress. -/
def spin (call : PauseFor) (hit : Bool) : ZeroRead :=
  if s.readfileThread then { s with cancelled := s.cancelled || (hit && s.thread.reads) }
  else { s with loop := .paused call }

/-- `uv__pipe_unpause_read`, and the rest of the call. -/
def uvPipeUnpauseRead (call : PauseFor) : ZeroRead :=
  match call with
  | .stop => { s with loop := .free }
  | .name => { s with loop := .free }
  | .close =>
    let s := { s with
      loop := .free
      handleOpen := false
      readable := false
      writable := false
      closing := true }
    if s.reqsPending = 0 then s.wantEndgame else s

def uvReadStop : ZeroRead :=
  if s.reading = false then s else { s with reading := false }.uvPipePauseRead .stop

def uvPipeGetname : ZeroRead := if s.handleOpen = false then s else s.uvPipePauseRead .name

/-- `uv_pipe_close`; `none` is the assertion of `uv__handle_closing`. -/
def uvPipeClose : Option ZeroRead :=
  if s.closing then none else some ({ s with reading := false }.uvPipePauseRead .close)

/-- `uv_pipe_queue_read`, where `queued` is what `QueueUserWorkItem` returns. `none` is an assertion
that fails, or a second thread for the same request. -/
def uvPipeQueueRead (queued : Bool) : Option ZeroRead :=
  if s.reading = false ∨ s.readPending = true ∨ s.handleOpen = false ∨ s.thread ≠ .idle then none
  else
    let s := { s with readPending := true, reqsPending := s.reqsPending + 1 }
    if queued then some { s with thread := .begins }
    else some { s with completions := s.completions ++ [false] }

/-- `uv_read_start` and `uv_pipe_read_start` -/
def uvReadStart (queued : Bool) : Option ZeroRead :=
  if s.reading then some s
  else if s.readable = false then some s
  else
    let s := { s with reading := true }
    if s.readPending then some s else s.uvPipeQueueRead queued

def uvPipeReadErrorOrEof (eof again : Bool) : ZeroRead :=
  { s with
    readable := s.readable && !eof
    reading := false
    callback := .readCb again }.uvPipePauseRead .stop

/-- `uv_process_pipe_read_req`, until a callback if one is called. -/
def uvProcessPipeReadReq (outcome : PeekOutcome) (eof queued : Bool) : Option ZeroRead :=
  match s.completions with
  | [] => none
  | success :: completions =>
    let s := { s with completions, readPending := false }
    if s.reading = false then s.decreasePending
    else if success = false then some (s.uvPipeReadErrorOrEof eof false)
    else
      match outcome with
      | .failed => some (s.uvPipeReadErrorOrEof eof true)
      | .empty => (s.uvPipeQueueRead queued).bind decreasePending
      | .data => some { s with callback := .readCb true }

/-- A callback returns to the function that has called it. -/
def returned (queued : Bool) : Option ZeroRead :=
  match s.callback with
  | .none => none
  | .readCb again =>
    if again ∧ s.reading ∧ s.readPending = false then (s.uvPipeQueueRead queued).bind decreasePending
    else s.decreasePending
  | .shutdownCb => s.decreasePending

def uvWrite : ZeroRead :=
  if s.writable = false then s
  else { s with writeReqsPending := s.writeReqsPending + 1, reqsPending := s.reqsPending + 1 }

def uvProcessPipeWriteReq : Option ZeroRead :=
  let s := { s with writeReqsPending := s.writeReqsPending - 1 }
  if s.shutdownReq ∧ s.writeReqsPending = 0 then s.wantEndgame.decreasePending else s.decreasePending

def uvShutdown : ZeroRead :=
  if s.writable = false then s
  else
    { s with
      writable := false
      shutdownReq := true
      reqsPending := s.reqsPending + 1 }.wantEndgame

/-- `uv_pipe_endgame`; `fails` says that the pipe can be neither queried nor flushed. -/
def uvPipeEndgame (fails : Bool) : Option ZeroRead :=
  -- also where the handle is not closed, but shut down
  let s := { s with endgameQueued := false, cancelable := false }
  if s.shutdownReq ∧ s.writeReqsPending = 0 then
    let s := { s with shutdownReq := false }
    if s.closing then some { s with callback := .shutdownCb }
    else if fails then some { s with writable := true, callback := .shutdownCb }
    else some { s with shutdowns := s.shutdowns + 1 }
  else if s.closing ∧ s.reqsPending = 0 then
    if s.closed then none else some { s with closed := true }
  else some s

/-- `uv_process_pipe_shutdown_req` up to the callback. -/
def uvProcessPipeShutdownReq : ZeroRead :=
  { s with
    shutdowns := s.shutdowns - 1
    handleOpen := s.handleOpen && s.readable
    callback := .shutdownCb }

inductive Event where
  | readStart (queued : Bool) : Event
  | readStop : Event
  | getname : Event
  | write : Event
  | shutdown : Event
  | close : Event
  | spin (hit : Bool) : Event
  | unpause : Event
  | process (outcome : PeekOutcome) (eof queued : Bool) : Event
  | returned (queued : Bool) : Event
  | writeDone : Event
  | shutdownDone : Event
  | endgame (fails : Bool) : Event
  | thread (duplicated : Bool) (result : ReadFileResult) : Event

/-- The loop does one thing at a time, the thread waits for the mutex, and a `ReadFile` is aborted
only where it has been cancelled. -/
def Enabled : Event → Prop
  | .close => s.loop = .free ∧ s.closing = false
  | .spin _ => ∃ call ∈ [PauseFor.stop, .close, .name], s.loop = .pausing call
  | .unpause => ∃ call ∈ [PauseFor.stop, .close, .name], s.loop = .paused call
  | .process _ _ _ => s.loop = .free ∧ s.callback = .none ∧ s.completions ≠ []
  | .returned _ => s.loop = .free ∧ s.callback ≠ .none
  | .writeDone => s.loop = .free ∧ s.callback = .none ∧ 0 < s.writeReqsPending
  | .shutdownDone => s.loop = .free ∧ s.callback = .none ∧ 0 < s.shutdowns
  | .endgame _ => s.loop = .free ∧ s.callback = .none ∧ s.endgameQueued = true
  | .thread _ result => s.thread ≠ .idle ∧ (s.thread.locks = true → s.held = false) ∧
      (s.thread.reads = true → result = .aborted → s.cancelled = true)
  | _ => s.loop = .free

instance (e : Event) : Decidable (s.Enabled e) := by
  cases e <;> unfold Enabled <;> infer_instance

def next : Event → Option ZeroRead
  | .readStart queued => s.uvReadStart queued
  | .readStop => some s.uvReadStop
  | .getname => some s.uvPipeGetname
  | .write => some s.uvWrite
  | .shutdown => some s.uvShutdown
  | .close => s.uvPipeClose
  | .spin hit =>
    match s.loop with
    | .pausing call => some (s.spin call hit)
    | _ => none
  | .unpause =>
    match s.loop with
    | .paused call => some (s.uvPipeUnpauseRead call)
    | _ => none
  | .process outcome eof queued => s.uvProcessPipeReadReq outcome eof queued
  | .returned queued => s.returned queued
  | .writeDone => s.uvProcessPipeWriteReq
  | .shutdownDone => some s.uvProcessPipeShutdownReq
  | .endgame fails => s.uvPipeEndgame fails
  | .thread duplicated result => s.threadStep duplicated result

def step (e : Event) : Option ZeroRead := if s.Enabled e then s.next e else none

def Step (s : ZeroRead) (e : Event) (t : ZeroRead) : Prop := s.step e = some t

structure Init (s : ZeroRead) : Prop where
  cancelable : s.cancelable = true
  reading : s.reading = false
  readPending : s.readPending = false
  closing : s.closing = false
  closed : s.closed = false
  endgameQueued : s.endgameQueued = false
  shutdownReq : s.shutdownReq = false
  handleOpen : s.handleOpen = true
  writeReqsPending : s.writeReqsPending = 0
  shutdowns : s.shutdowns = 0
  reqsPending : s.reqsPending = 0
  readfileThread : s.readfileThread = false
  thread : s.thread = .idle
  cancelled : s.cancelled = false
  completions : s.completions = []
  loop : s.loop = .free
  callback : s.callback = .none

end ZeroRead

end LibuvWorks.Win
