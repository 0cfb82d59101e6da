import LibuvWorks.Unix.IoWatcher
import LibuvWorks.Unix.Stream

/-!
# The callback of a stream's watcher

`uv__stream_io` reads, writes, reports and drains, with callbacks of the user in between that may
stop or start reading, write, shut down or close. What is read and written does not matter here.
-/
namespace LibuvWorks.Unix

structure PollEvents where
  input : Bool
  output : Bool
  err : Bool
  hup : Bool
  deriving DecidableEq

/-- An answer of `read` or `recvmsg`, which are repeated when they are interrupted; `cmsgErr` is
what `uv__stream_recv_cmsg` makes of an ipc message. -/
inductive ReadResult where
  | fails (errno : ℕ) : ReadResult
  | bytes (n : ℕ) (cmsgErr : ℤ) : ReadResult

/-- What the kernel makes of the first request of the write queue: it is done, it fails, or a part
is left. -/
inductive WriteResult where
  | done : WriteResult
  | failed : WriteResult
  | later : WriteResult

/-- What follows a call of `read_cb`. -/
inductive AfterRead where
  | leave : AfterRead
  | error : AfterRead
  | eof : AfterRead
  | data (count : ℕ) (full : Bool) : AfterRead
  deriving DecidableEq

/-- Where the callback of the watcher is: not running, in a callback of the user, or asking the
kernel. -/
inductive StreamPhase where
  | idle : StreamPhase
  | alloc (events : PollEvents) (count : ℕ) : StreamPhase
  | readCb (after : AfterRead) (events : PollEvents) : StreamPhase
  | write : StreamPhase
  | writeCb (caller : Caller) : StreamPhase
  | shutdown : StreamPhase
  | shutdownCb : StreamPhase
  | connectCb (error : ℤ) : StreamPhase
  deriving DecidableEq

/-- `alloc_cb` runs. -/
def StreamPhase.isAlloc : StreamPhase → Bool
  | .alloc _ _ => true
  | _ => false

/-- `read_cb` runs and was told `UV_EOF`. -/
def StreamPhase.isEof : StreamPhase → Bool
  | .readCb .eof _ => true
  | _ => false

/-- `connect_cb` runs. -/
def StreamPhase.isConnect : StreamPhase → Bool
  | .connectCb _ => true
  | _ => false

/-- A callback without a result runs. -/
def StreamPhase.isCallback : StreamPhase → Bool
  | .readCb _ _ => true
  | .writeCb _ => true
  | .shutdownCb => true
  | .connectCb _ => true
  | _ => false

/-- What is recorded: the calls of the user that matter for reading, the calls of `read_cb`, and the
system calls on the descriptor, but for the `close` of `uv_close` itself. -/
inductive IoEntry where
  | start : IoEntry
  | stop : IoEntry
  | close : IoEntry
  | called (nread : ℤ) : IoEntry
  | syscall : IoEntry
  deriving DecidableEq

/-- `uv_stream_t`. `readCb` says that `read_cb` and `alloc_cb` are not null, the write queues are
counted, and the log has the latest entry first. -/
structure StreamIo where
  watcher : IoWatcher
  closing : Bool
  ipc : Bool
  reading : Bool
  readPartial : Bool
  readEof : Bool
  readCb : Bool
  connecting : Bool
  delayedError : ℤ
  writeQueue : ℕ
  writeCompletedQueue : ℕ
  shutting : Bool
  shut : Bool
  phase : StreamPhase
  log : List IoEntry

def uvEof : ℤ := -4095

def uvEnobufs : ℤ := -105

def econnrefused : ℕ := 111

def einprogress : ℕ := 115

namespace StreamIo

variable (s : StreamIo)

def syscall : StreamIo := { s with log := .syscall :: s.log }

def uvIoStart (m : PollMask) : Option StreamIo :=
  (s.watcher.uvIoStart m).map fun watcher => { s with watcher }

def uvIoStop (m : PollMask) : StreamIo := { s with watcher := s.watcher.uvIoStop m }

/-! ### Writing -/

/-- `uv__write` up to the answer of the kernel; `none` is an assertion that fails. -/
def uvWrite (result : WriteResult) : Option StreamIo :=
  if s.watcher.fd < 0 then none
  else if s.writeQueue = 0 then some s
  else
    let s := s.syscall
    let finished := { s with
      writeQueue := s.writeQueue - 1
      writeCompletedQueue := s.writeCompletedQueue + 1
      watcher := s.watcher.uvIoFeed }
    match result with
    | .done => some finished
    | .failed => some (finished.uvIoStop .pollOut)
    | .later => s.uvIoStart .pollOut

/-- `uv__drain` up to its call of `shutdown(2)`. -/
def uvDrain : StreamIo :=
  let s := s.uvIoStop .pollOut
  if s.shutting ∧ !s.closing ∧ !s.shut then { s with shutting := false, phase := .shutdown }
  else { s with phase := .idle }

/-- A round of `uv__write_callbacks`, or what its caller does after the last one. -/
def uvWriteCallbacks (caller : Caller) : StreamIo :=
  if 0 < s.writeCompletedQueue then
    { s with writeCompletedQueue := s.writeCompletedQueue - 1, phase := .writeCb caller }
  else if caller = .io ∧ s.writeQueue = 0 then s.uvDrain
  else { s with phase := .idle }

/-- The last part of `uv__stream_io`. -/
def writes (events : PollEvents) : Option StreamIo :=
  if events.output || events.err || events.hup then
    if s.watcher.fd < 0 then none
    else if s.writeQueue = 0 then some (s.uvWriteCallbacks .io)
    else some { s with phase := .write }
  else some { s with phase := .idle }

/-! ### Reading -/

/-- `read_cb` is called; `none` if it is null. -/
def callRead (nread : ℤ) (after : AfterRead) (events : PollEvents) : Option StreamIo :=
  if s.readCb then some { s with phase := .readCb after events, log := .called nread :: s.log }
  else none

/-- `uv__stream_eof` up to the return of the callback. -/
def uvStreamEof (events : PollEvents) : Option StreamIo :=
  { s with readEof := true }.uvIoStop .pollIn |>.callRead uvEof .eof events

/-- `uv__stream_io` after `uv__read`. -/
def afterRead (events : PollEvents) : Option StreamIo :=
  if s.watcher.fd = -1 then some { s with phase := .idle }
  else if events.hup ∧ s.reading ∧ s.readPartial ∧ !s.readEof then s.uvStreamEof events
  else s.writes events

/-- The head of the loop of `uv__read`. -/
def readLoop (events : PollEvents) (count : ℕ) : Option StreamIo :=
  if s.readCb ∧ s.reading ∧ 0 < count then some { s with phase := .alloc events (count - 1) }
  else s.afterRead events

/-- A round of `uv__read` after `alloc_cb` has given `len` bytes. -/
def uvRead (events : PollEvents) (count len : ℕ) (result : ReadResult) : Option StreamIo :=
  if len = 0 then s.callRead uvEnobufs .leave events
  else if s.watcher.fd < 0 then none
  else
    let s := s.syscall
    match result with
    | .fails errno =>
      if errno = eagain then
        (if s.reading then s.uvIoStart .pollIn else some s).bind fun s => s.callRead 0 .leave events
      else s.callRead (-errno) .error events
    | .bytes n cmsgErr =>
      if n = 0 then s.uvStreamEof events
      else if s.ipc ∧ cmsgErr ≠ 0 then s.callRead cmsgErr .leave events
      else s.callRead n (.data count (len ≤ n)) events

/-- `read_cb` returns. -/
def readReturned (after : AfterRead) (events : PollEvents) : Option StreamIo :=
  match after with
  | .leave => s.afterRead events
  | .error =>
    if s.reading then ({ s with reading := false }.uvIoStop .pollIn).afterRead events
    else s.afterRead events
  | .eof => { s with reading := false }.afterRead events
  | .data count full =>
    if full then s.readLoop events count else { s with readPartial := true }.afterRead events

/-! ### The watcher -/

/-- `uv__stream_connect` from its error up to the callback. -/
def connectCall (error : ℤ) : StreamIo :=
  if error = uvEinprogress then s
  else
    let s := { s with connecting := false, phase := .connectCb error }
    if error < 0 ∨ s.writeQueue = 0 then s.uvIoStop .pollOut else s

/-- `uv__stream_connect` up to the callback; `error` is what `getsockopt` gives. -/
def uvStreamConnect (error : ℤ) : Option StreamIo :=
  if s.delayedError ≠ 0 then some ({ s with delayedError := 0 }.connectCall s.delayedError)
  else if s.watcher.fd < 0 then none
  else some (s.syscall.connectCall error)

/-- The callback of `uv__stream_connect` returns. -/
def connectReturned (error : ℤ) : StreamIo :=
  if s.watcher.fd = -1 ∨ 0 ≤ error then { s with phase := .idle }
  else
    uvWriteCallbacks { s with
      writeQueue := 0
      writeCompletedQueue := s.writeCompletedQueue + s.writeQueue } .connect

/-- `uv__stream_io` up to the first callback. -/
def uvStreamIo (events : PollEvents) (error : ℤ) : Option StreamIo :=
  if s.closing then none
  else if s.connecting then s.uvStreamConnect error
  else if s.watcher.fd < 0 then none
  else if events.input || events.err || events.hup then
    { s with readPartial := false }.readLoop events 32
  else s.afterRead events

/-! ### Calls of the user -/

def uvReadStart : Option StreamIo :=
  if s.closing then some s
  else { s with reading := true, readCb := true, log := .start :: s.log }.uvIoStart .pollIn

/-- `uv_read_stop`, without the record. -/
def uvReadStop : StreamIo :=
  if s.reading then { s with reading := false, readCb := false }.uvIoStop .pollIn else s

/-- `uv_write2`; `emptyQueue` says that `write_queue_size` is zero. -/
def uvWrite2 (emptyQueue : Bool) (result : WriteResult) : Option StreamIo :=
  if s.watcher.fd < 0 then some s
  else
    let s := { s with writeQueue := s.writeQueue + 1 }
    if s.connecting then some s
    else if emptyQueue then s.uvWrite result
    else s.uvIoStart .pollOut

/-- `uv_shutdown` of a stream that is writable. -/
def uvShutdown : Option StreamIo :=
  if s.shut ∨ s.shutting ∨ s.closing then some s
  else { s with shutting := true }.uvIoStart .pollOut

/-- `uv__tcp_connect` on an open descriptor; `errno` is what `connect` gives. -/
def uvTcpConnect (errno : ℕ) : Option StreamIo :=
  if s.connecting then some s
  else
    let s := { s with delayedError := if errno = econnrefused then -econnrefused else 0 }.syscall
    if errno = 0 ∨ errno = einprogress ∨ errno = econnrefused then
      ({ s with connecting := true }.uvIoStart .pollOut).map fun (s : StreamIo) =>
        if s.delayedError = 0 then s else { s with watcher := s.watcher.uvIoFeed }
    else some s

/-- `uv_pipe_connect`, which has opened a socket if there was none; `error` is that of `socket` or
`connect`. -/
def uvPipeConnect (error : ℤ) : Option StreamIo :=
  let s := if s.watcher.fd = -1 then s else s.syscall
  let s := { s with connecting := true, delayedError := error }
  if error = 0 then s.uvIoStart ⟨true, true⟩ else some { s with watcher := s.watcher.uvIoFeed }

def uvStreamOpen (fd : ℤ) : StreamIo :=
  if s.watcher.fd = -1 ∨ s.watcher.fd = fd then { s with watcher := { s.watcher with fd } } else s

def uvStreamClose : StreamIo :=
  let s := { s with closing := true, log := .close :: s.log, watcher := s.watcher.uvIoClose }
  let s := s.uvReadStop
  { s with watcher := { s.watcher with fd := -1 } }

/-! ### Events -/

/-- The loop registers or calls the watcher, the kernel answers, a callback returns, or the user
calls. -/
inductive Event where
  | poll : Event
  | io (events : PollEvents) (error : ℤ) : Event
  | pending (error : ℤ) : Event
  | buffer (len : ℕ) (result : ReadResult) : Event
  | answer (result : WriteResult) : Event
  | shutdownAnswer (errno : ℕ) : Event
  | finish : Event
  | readStart : Event
  | readStop : Event
  | write2 (emptyQueue : Bool) (result : WriteResult) : Event
  | shutdown : Event
  | tcpConnect (errno : ℕ) : Event
  | pipeConnect (error : ℤ) : Event
  | streamOpen (fd : ℤ) : Event
  | close : Event

def Calls (s : StreamIo) : Prop := s.phase ≠ .write ∧ s.phase ≠ .shutdown

instance : Decidable s.Calls := inferInstanceAs (Decidable (_ ∧ _))

/-- What a read of at most `len` bytes can give. -/
def Gives (len : ℕ) : ReadResult → Prop
  | .fails errno => 0 < errno ∧ errno ≠ eintr ∧ errno < 4095
  | .bytes n cmsgErr => n ≤ len ∧ -4095 < cmsgErr ∧ cmsgErr ≤ 0

instance (len : ℕ) (result : ReadResult) : Decidable (Gives len result) := by
  cases result <;> unfold Gives <;> infer_instance

/-- The events that can happen. The loop has no event for a closed watcher, but takes whatever is in
`pending_queue`. -/
def Enabled : Event → Prop
  | .poll => s.phase = .idle
  | .io _ error => s.phase = .idle ∧ s.closing = false ∧ error ≤ 0
  | .pending error => s.phase = .idle ∧ s.watcher.pending = .linked ∧ error ≤ 0
  | .buffer len result => s.phase.isAlloc = true ∧ Gives len result
  | .answer _ => s.phase = .write
  | .shutdownAnswer _ => s.phase = .shutdown
  | .finish => s.phase.isCallback = true
  | .readStart => s.Calls
  | .readStop => s.Calls
  | .write2 _ _ => s.Calls
  | .shutdown => s.Calls
  | .tcpConnect _ => s.Calls ∧ s.closing = false ∧ 0 ≤ s.watcher.fd
  | .pipeConnect error => s.Calls ∧ s.closing = false ∧ (error = 0 → 0 ≤ s.watcher.fd)
  | .streamOpen fd => s.Calls ∧ s.closing = false ∧ 0 ≤ fd
  | .close => s.Calls ∧ s.closing = false

instance (e : Event) : Decidable (s.Enabled e) := by
  cases e <;> unfold Enabled <;> infer_instance

def next : Event → Option StreamIo
  | .poll => some { s with watcher := s.watcher.register }
  | .io events error => s.uvStreamIo events error
  | .pending error =>
    { s with watcher := s.watcher.unlink }.uvStreamIo ⟨false, true, false, false⟩ error
  | .buffer len result =>
    match s.phase with
    | .alloc events count => s.uvRead events count len result
    | _ => none
  | .answer result => (s.uvWrite result).map (uvWriteCallbacks · .io)
  | .shutdownAnswer errno => some { s.syscall with shut := errno = 0, phase := .shutdownCb }
  | .finish =>
    match s.phase with
    | .readCb after events => s.readReturned after events
    | .writeCb caller => some (s.uvWriteCallbacks caller)
    | .shutdownCb => some { s with phase := .idle }
    | .connectCb error => some (s.connectReturned error)
    | _ => none
  | .readStart => s.uvReadStart
  | .readStop => some { s.uvReadStop with log := .stop :: s.log }
  | .write2 emptyQueue result => s.uvWrite2 emptyQueue result
  | .shutdown => s.uvShutdown
  | .tcpConnect errno => s.uvTcpConnect errno
  | .pipeConnect error => s.uvPipeConnect error
  | .streamOpen fd => some (s.uvStreamOpen fd)
  | .close => some s.uvStreamClose

def step (e : Event) : Option StreamIo := if s.Enabled e then s.next e else none

def Step (s : StreamIo) (e : Event) (t : StreamIo) : Prop := s.step e = some t

structure Init (s : StreamIo) : Prop where
  fd : -1 ≤ s.watcher.fd
  events : s.watcher.events = .empty
  pevents : s.watcher.pevents = .empty
  pending : s.watcher.pending = .self
  queued : s.watcher.queued = false
  closing : s.closing = false
  reading : s.reading = false
  readEof : s.readEof = false
  phase : s.phase = .idle
  log : s.log = []

end StreamIo

end LibuvWorks.Unix
