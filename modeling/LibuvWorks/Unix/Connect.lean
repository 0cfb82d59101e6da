import LibuvWorks.Lib.Transition
import LibuvWorks.Unix.StreamIo

/-!
# Connect requests of a unix stream

`uv_tcp_connect` and `uv_pipe_connect` leave their request to `uv__stream_connect`, or to
`uv__stream_destroy` if the stream is closed first. Writes wait until it is completed. What the
kernel answers is part of the events, and so is whether `write_queue_size` is zero.
-/
namespace LibuvWorks.Unix

/-- `uv_connect_t`, with the number of the requests that were accepted before it, whether it has a
callback, and the `delayed_error` that it was accepted with. -/
structure ConnectReq where
  id : ℕ
  hasCb : Bool
  failed : ℤ

/-- `uv_write_t`, with its number and the attempt to connect that it waits for. -/
structure WaitingWrite where
  id : ℕ
  attempt : Option ℕ
  deriving DecidableEq

/-- A request in `loop->active_reqs` -/
inductive ActiveReq where
  | connect (id : ℕ) : ActiveReq
  | write (id : ℕ) : ActiveReq
  deriving DecidableEq

inductive ConnectCause where
  | delayedError : ConnectCause
  | soError : ConnectCause
  | closed : ConnectCause

structure ConnectDone where
  req : ConnectReq
  error : ℤ
  cause : ConnectCause

/-- The callback of the user that runs, if one does; after a call of a null pointer none will. -/
inductive ConnectPhase where
  | idle : ConnectPhase
  | connectCb (id : ℕ) (error : ℤ) : ConnectPhase
  | readCb : ConnectPhase
  | writeCb (caller : Caller) : ConnectPhase
  /-- `connect_cb`, from `uv__stream_destroy` -/
  | destroyCb : ConnectPhase
  | crashed : ConnectPhase
  deriving DecidableEq

/-- `uv_stream_t`; `fed` says that its watcher is in `pending_queue`. The last five fields are how
many connect requests and writes were accepted, the requests that are completed, the calls of
`connect_cb`, and the writes that were flushed, with the attempt that failed if one did. -/
structure ConnectStream where
  pipe : Bool
  fd : ℤ
  closing : Bool
  closed : Bool
  connectReq : Option ConnectReq
  delayedError : ℤ
  fed : Bool
  activeReqs : List ActiveReq
  writeQueue : List WaitingWrite
  writeCompletedQueue : List WaitingWrite
  phase : ConnectPhase
  accepted : ℕ
  writes : ℕ
  completed : List ConnectDone
  calls : List (ℕ × ℤ)
  cancelled : List (WaitingWrite × Option ℕ)

namespace ConnectStream

variable (s : ConnectStream)

/-! ### Writes -/

def uvWrite (result : WriteResult) : Option ConnectStream :=
  if s.fd < 0 then none
  else
    match s.writeQueue, result with
    | [], _ | _, .later => some s
    | req :: writeQueue, _ =>
      some { s with
        writeQueue
        writeCompletedQueue := s.writeCompletedQueue ++ [req]
        fed := true }

def uvWrite2 (emptyQueue : Bool) (result : WriteResult) : Option ConnectStream :=
  if s.fd < 0 then some s
  else
    let s := { s with
      activeReqs := s.activeReqs ++ [.write s.writes]
      writeQueue := s.writeQueue ++ [⟨s.writes, s.connectReq.map (·.id)⟩]
      writes := s.writes + 1 }
    if s.connectReq.isSome then some s
    else if emptyQueue then s.uvWrite result
    else some s

/-- A round of `uv__write_callbacks`, or its end. -/
def uvWriteCallbacks (caller : Caller) : ConnectStream :=
  match s.writeCompletedQueue with
  | req :: writeCompletedQueue =>
    { s with
      activeReqs := s.activeReqs.erase (.write req.id)
      writeCompletedQueue
      phase := .writeCb caller }
  | [] => { s with phase := .idle }

def uvStreamFlushWriteQueue (cause : Option ℕ) : ConnectStream :=
  { s with
    writeQueue := []
    writeCompletedQueue := s.writeCompletedQueue ++ s.writeQueue
    cancelled := s.cancelled ++ s.writeQueue.map fun req => (req, cause) }

/-! ### Connect requests -/

/-- The request is accepted. -/
def accept (hasCb : Bool) : ConnectStream :=
  { s with
    connectReq := some ⟨s.accepted, hasCb, s.delayedError⟩
    fed := s.fed || s.delayedError ≠ 0
    activeReqs := s.activeReqs ++ [.connect s.accepted]
    accepted := s.accepted + 1 }

/-- `uv__tcp_connect`; `sock` is what `maybe_new_socket` finds if it needs a new socket, and `errno`
is that of `connect(2)`. -/
def uvTcpConnect (hasCb : Bool) (sock : ℤ) (errno : ℕ) : ConnectStream :=
  if s.connectReq.isSome then s
  else if s.fd = -1 ∧ sock < 0 then s
  else
    let s := { s with
      fd := if s.fd = -1 then sock else s.fd
      delayedError := if errno = econnrefused then -econnrefused else 0 }
    if errno = 0 ∨ errno = einprogress ∨ errno = econnrefused then s.accept hasCb else s

def uvPipeConnect (hasCb : Bool) (sock : ℤ) (errno : ℕ) : ConnectStream :=
  if s.fd = -1 ∧ sock < 0 then { s with delayedError := sock }.accept hasCb
  else
    accept
      { s with
        fd := if s.fd = -1 then sock else s.fd
        delayedError := if errno = 0 ∨ errno = einprogress then 0 else -errno }
      hasCb

/-- What follows the callback in `uv__stream_connect`. -/
def connectReturned (id : ℕ) (error : ℤ) : ConnectStream :=
  if s.fd = -1 ∨ 0 ≤ error then { s with phase := .idle }
  else (s.uvStreamFlushWriteQueue (some id)).uvWriteCallbacks .connect

/-- `uv__stream_connect` from its error on. -/
def complete (req : ConnectReq) (error : ℤ) (cause : ConnectCause) : ConnectStream :=
  if error = uvEinprogress then s
  else
    let s : ConnectStream := { s with
      connectReq := none
      activeReqs := s.activeReqs.erase (.connect req.id)
      completed := s.completed ++ [⟨req, error, cause⟩] }
    if req.hasCb then
      { s with calls := s.calls ++ [(req.id, error)], phase := .connectCb req.id error }
    else s.connectReturned req.id error

/-- `uv__stream_connect`; `error` is what `getsockopt` gives for `SO_ERROR`, with its sign
changed. -/
def uvStreamConnect (req : ConnectReq) (error : ℤ) : Option ConnectStream :=
  if s.delayedError ≠ 0 then
    some ({ s with delayedError := 0 }.complete req s.delayedError .delayedError)
  else if s.fd < 0 then none
  else some (s.complete req error .soError)

/-- `uv__stream_io` up to the callbacks of `uv__read` -/
def uvStreamIo (error : ℤ) : Option ConnectStream :=
  match s.connectReq with
  | some req => s.uvStreamConnect req error
  | none => if s.fd < 0 then none else some { s with phase := .readCb }

def uvStreamClose : ConnectStream := { s with closing := true, fd := -1, fed := false }

/-- `uv__stream_destroy` after it has completed the connect request -/
def destroyWrites : ConnectStream :=
  ({ s with connectReq := none }.uvStreamFlushWriteQueue none).uvWriteCallbacks .destroy

/-- `uv__stream_destroy`, which calls `connect_cb` without a look at it. -/
def uvStreamDestroy : ConnectStream :=
  let s := { s with closed := true }
  match s.connectReq with
  | some req =>
    { s with
      activeReqs := s.activeReqs.erase (.connect req.id)
      completed := s.completed ++ [⟨req, uvEcanceled, .closed⟩]
      calls := s.calls ++ [(req.id, uvEcanceled)]
      phase := if req.hasCb then .destroyCb else .crashed }
  | none => s.destroyWrites

/-- A callback returns. -/
def returned : Option ConnectStream :=
  match s.phase with
  | .idle | .crashed => none
  | .connectCb id error => some (s.connectReturned id error)
  | .readCb => some { s with phase := .idle }
  | .writeCb caller => some (s.uvWriteCallbacks caller)
  | .destroyCb => some s.destroyWrites

/-! ### Events -/

inductive Event where
  | connect (hasCb : Bool) (sock : ℤ) (errno : ℕ) : Event
  | write2 (emptyQueue : Bool) (result : WriteResult) : Event
  | close : Event
  /-- The loop calls the watcher. -/
  | io (error : ℤ) : Event
  /-- The loop finds the watcher in `pending_queue`. -/
  | pending (error : ℤ) : Event
  /-- A callback returns. -/
  | finish : Event
  /-- The callbacks of `uv__read` are over, and `uv__stream_io` goes on with the write queue. -/
  | written (result : WriteResult) : Event
  /-- The loop finishes the closing of the handle. -/
  | destroy : Event

/-- The events that can happen. The user calls from any callback, or outside of all, but does not
connect a stream that was closed; `socket(2)` does not fail with `EINPROGRESS`. -/
def Enabled : Event → Prop
  | .connect _ sock _ => s.phase ≠ .crashed ∧ s.closing = false ∧ sock ≠ uvEinprogress
  | .write2 _ _ => s.phase ≠ .crashed
  | .close => s.phase ≠ .crashed ∧ s.closing = false
  | .io error => s.phase = .idle ∧ s.closing = false ∧ error ≤ 0
  | .pending error => s.phase = .idle ∧ s.fed = true ∧ s.closing = false ∧ error ≤ 0
  | .finish => True
  | .written _ => s.phase = .readCb ∧ s.fd ≠ -1
  | .destroy => s.phase = .idle ∧ s.closing = true ∧ s.closed = false

instance : DecidablePred s.Enabled := fun e => by
  cases e <;> unfold Enabled <;> infer_instance

def next : Event → Option ConnectStream
  | .connect hasCb sock errno =>
    some (if s.pipe then s.uvPipeConnect hasCb sock errno else s.uvTcpConnect hasCb sock errno)
  | .write2 emptyQueue result => s.uvWrite2 emptyQueue result
  | .close => some s.uvStreamClose
  | .io error => s.uvStreamIo error
  | .pending error => { s with fed := false }.uvStreamIo error
  | .finish => s.returned
  | .written result => (s.uvWrite result).map (uvWriteCallbacks · .io)
  | .destroy => some s.uvStreamDestroy

def step (e : Event) : Option ConnectStream := if s.Enabled e then s.next e else none

def Step (s : ConnectStream) (e : Event) (t : ConnectStream) : Prop := s.step e = some t

def fresh (pipe : Bool) (fd : ℤ) : ConnectStream :=
  ⟨pipe, fd, false, false, none, 0, false, [], [], [], .idle, 0, 0, [], [], []⟩

end ConnectStream

end LibuvWorks.Unix
