import LibuvWorks.Unix.StreamIo

/-!
# The callback of a udp handle's watcher

`uv__udp_io` receives, sends and reports, with callbacks of the user in between that may start or
stop receiving, send, bind or close.
-/
namespace LibuvWorks.Unix

/-- Where the callback of the watcher is: not running, in a callback of the user, or about to send.
`again` says that `recvmsg` has not failed. -/
inductive UdpPhase where
  | idle : UdpPhase
  | alloc (events : PollEvents) (count : ℕ) : UdpPhase
  | recvCb (again : Bool) (events : PollEvents) (count : ℕ) : UdpPhase
  | send : UdpPhase
  | sendCb : UdpPhase
  deriving DecidableEq

/-- `alloc_cb` or `recv_cb` runs, and `uv__udp_sendmsg` follows; or nothing is in between. -/
def UdpPhase.sends : UdpPhase → Bool
  | .alloc events _ => events.output
  | .recvCb _ events _ => events.output
  | .send => true
  | _ => false

/-- `alloc_cb` runs. -/
def UdpPhase.isAlloc : UdpPhase → Bool
  | .alloc _ _ => true
  | _ => false

/-- `recv_cb` or `send_cb` runs. -/
def UdpPhase.isCallback : UdpPhase → Bool
  | .recvCb _ _ _ => true
  | .sendCb => true
  | _ => false

/-- `uv_udp_t`. `recvCb` says that `recv_cb` and `alloc_cb` are not null, the queues are counted,
and `processing` is `UV_UDP_PROCESSING`. The log is that of a stream. -/
structure UdpIo where
  watcher : IoWatcher
  closing : Bool
  recvCb : Bool
  writeQueue : ℕ
  writeCompletedQueue : ℕ
  processing : Bool
  phase : UdpPhase
  log : List IoEntry

namespace UdpIo

variable (s : UdpIo)

def syscall : UdpIo := { s with log := .syscall :: s.log }

def uvIoStart (m : PollMask) : Option UdpIo :=
  (s.watcher.uvIoStart m).map fun watcher => { s with watcher }

/-! ### Sending -/

/-- `uv__udp_sendmsg`; the kernel takes or refuses `sent` datagrams and has no room for the next. -/
def uvUdpSendmsg (sent : ℕ) : UdpIo :=
  if s.writeQueue = 0 then s
  else
    { s.syscall with
      writeQueue := s.writeQueue - sent
      writeCompletedQueue := s.writeCompletedQueue + sent
      watcher := if sent = 0 then s.watcher else s.watcher.uvIoFeed }

/-- A round of `uv__udp_run_completed`, or what follows the last one. -/
def uvUdpCallbacks : UdpIo :=
  if 0 < s.writeCompletedQueue then
    { s with writeCompletedQueue := s.writeCompletedQueue - 1, phase := .sendCb }
  else
    { s with
      watcher := if s.writeQueue = 0 then s.watcher.uvIoStop .pollOut else s.watcher
      processing := false
      phase := .idle }

/-- `uv__udp_run_completed` begins; `none` is an assertion that fails. -/
def uvUdpRunCompleted : Option UdpIo :=
  if s.processing then none else some { s with processing := true }.uvUdpCallbacks

/-! ### Receiving -/

/-- `uv__udp_io` after `uv__udp_recvmsg`. -/
def afterRecv (events : PollEvents) : UdpIo :=
  { s with phase := if events.output then .send else .idle }

/-- `recv_cb` is called; `none` if it is null. -/
def callRecv (again : Bool) (events : PollEvents) (count : ℕ) : Option UdpIo :=
  if s.recvCb then some { s with phase := .recvCb again events count } else none

/-- A round of `uv__udp_recvmsg` after `alloc_cb` has given `len` bytes. -/
def uvUdpRecvmsg (events : PollEvents) (count len : ℕ) (again : Bool) : Option UdpIo :=
  if len = 0 then s.callRecv false events count else s.syscall.callRecv again events count

/-- `recv_cb` returns. -/
def recvReturned (again : Bool) (events : PollEvents) (count : ℕ) : UdpIo :=
  if again ∧ 0 < count ∧ s.watcher.fd ≠ -1 ∧ s.recvCb then
    { s with phase := .alloc events (count - 1) }
  else s.afterRecv events

/-- `uv__udp_io` up to the first callback. -/
def uvUdpIo (events : PollEvents) : Option UdpIo :=
  if events.input then
    if s.recvCb then some { s with phase := .alloc events 32 } else none
  else some (s.afterRecv events)

/-! ### Calls of the user -/

def uvUdpOpen (fd : ℤ) : UdpIo :=
  if s.watcher.fd ≠ -1 then s else { s with watcher := { s.watcher with fd } }

/-- `uv__udp_bind`; `fd` is a new socket for a handle without one. A socket that cannot be bound is
closed. -/
def uvUdpBind (fd : ℤ) (fails : Bool) : UdpIo :=
  let s := (s.uvUdpOpen fd).syscall
  if fails then { s with watcher := { s.watcher with fd := -1 } } else s

/-- `uv__udp_send` after the deferred bind. -/
def uvUdpSend (sent : ℕ) : Option UdpIo :=
  let emptyQueue := s.writeQueue + s.writeCompletedQueue = 0
  let s := { s with writeQueue := s.writeQueue + 1 }
  if emptyQueue ∧ !s.processing then some (s.uvUdpSendmsg sent) else s.uvIoStart .pollOut

/-- `uv__udp_try_send` after the deferred bind. -/
def uvUdpTrySend : UdpIo := if s.writeQueue + s.writeCompletedQueue ≠ 0 then s else s.syscall

/-- `uv__udp_recv_start` after the deferred bind. -/
def uvUdpRecvStart : Option UdpIo :=
  if s.watcher.pevents.input then some s else { s with recvCb := true }.uvIoStart .pollIn

def uvUdpRecvStop : UdpIo := { s with watcher := s.watcher.uvIoStop .pollIn, recvCb := false }

def uvUdpClose : UdpIo :=
  { s with
    closing := true
    log := .close :: s.log
    watcher := { s.watcher.uvIoClose with fd := -1 } }

/-! ### Events -/

/-- The loop registers or calls the watcher, the kernel answers, a callback returns, or the user
calls. -/
inductive Event where
  | poll : Event
  | io (events : PollEvents) : Event
  | pending : Event
  | buffer (len : ℕ) (again : Bool) : Event
  | answer (sent : ℕ) : Event
  | finish : Event
  | udpOpen (fd : ℤ) : Event
  | bind (fd : ℤ) (fails : Bool) : Event
  | send (sent : ℕ) : Event
  | trySend : Event
  | recvStart : Event
  | recvStop : Event
  | close : Event

/-- The user calls from a callback, or outside of all, and not after `uv_close`. -/
def Calls (s : UdpIo) : Prop := s.phase ≠ .send ∧ s.closing = false

instance : Decidable s.Calls := inferInstanceAs (Decidable (_ ∧ _))

/-- The events that can happen. The loop has no event for a closed watcher, but takes whatever is in
`pending_queue`. -/
def Enabled : Event → Prop
  | .poll => s.phase = .idle
  | .io _ => s.phase = .idle ∧ s.closing = false
  | .pending => s.phase = .idle ∧ s.watcher.pending = .linked
  | .buffer _ _ => s.phase.isAlloc = true
  | .answer sent => s.phase = .send ∧ sent ≤ s.writeQueue
  | .finish => s.phase.isCallback = true
  | .udpOpen fd => s.Calls ∧ 0 ≤ fd
  | .bind fd _ => s.Calls ∧ 0 ≤ fd
  | .send sent => s.Calls ∧ s.watcher.fd ≠ -1 ∧ sent ≤ 1
  | .trySend => s.Calls ∧ s.watcher.fd ≠ -1
  | .recvStart => s.Calls ∧ s.watcher.fd ≠ -1
  | .recvStop => s.Calls
  | .close => s.Calls

instance (e : Event) : Decidable (s.Enabled e) := by
  cases e <;> unfold Enabled <;> infer_instance

/-- `uv__io_poll` asserts that the watchers of its queue have descriptors. -/
def next : Event → Option UdpIo
  | .poll =>
    if s.watcher.queued ∧ s.watcher.fd < 0 then none
    else some { s with watcher := s.watcher.register }
  | .io events => s.uvUdpIo events
  | .pending => { s with watcher := s.watcher.unlink }.uvUdpIo ⟨false, true, false, false⟩
  | .buffer len again =>
    match s.phase with
    | .alloc events count => s.uvUdpRecvmsg events count len again
    | _ => none
  | .answer sent => (s.uvUdpSendmsg sent).uvUdpRunCompleted
  | .finish =>
    match s.phase with
    | .recvCb again events count => some (s.recvReturned again events count)
    | .sendCb => some s.uvUdpCallbacks
    | _ => none
  | .udpOpen fd => some (s.uvUdpOpen fd)
  | .bind fd fails => some (s.uvUdpBind fd fails)
  | .send sent => s.uvUdpSend sent
  | .trySend => some s.uvUdpTrySend
  | .recvStart => s.uvUdpRecvStart
  | .recvStop => some s.uvUdpRecvStop
  | .close => some s.uvUdpClose

def step (e : Event) : Option UdpIo := if s.Enabled e then s.next e else none

def Step (s : UdpIo) (e : Event) (t : UdpIo) : Prop := s.step e = some t

structure Init (s : UdpIo) : Prop where
  fd : -1 ≤ s.watcher.fd
  events : s.watcher.events = .empty
  pevents : s.watcher.pevents = .empty
  pending : s.watcher.pending = .self
  queued : s.watcher.queued = false
  closing : s.closing = false
  phase : s.phase = .idle
  log : s.log = []

end UdpIo

end LibuvWorks.Unix
