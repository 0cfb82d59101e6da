import LibuvWorks.Lib.Transition
import Mathlib.Data.Int.Notation

/-!
# The read request of a tcp handle: `win/tcp.c`

A connection has one read request, embedded in its handle. `uv_active_tcp_streams_threshold` is 0,
so a read is always queued without a buffer, and the data is fetched when it completes. The active
flag follows `activecnt` and is left out.
-/
namespace LibuvWorks.Win

/-- A request that is embedded in its handle: how often the kernel has it, and how often it is on
the way to the loop, in the completion port or in `pending_reqs_tail`. -/
structure RecvReq where
  kernel : ℕ
  queued : ℕ
  deriving DecidableEq

namespace RecvReq

variable (r : RecvReq)

def outstanding : ℕ := r.kernel + r.queued

def submit : RecvReq := { r with kernel := r.kernel + 1 }

/-- `uv_insert_pending_req` -/
def insert : RecvReq := { r with queued := r.queued + 1 }

def arrive : RecvReq := ⟨r.kernel - 1, r.queued + 1⟩

def take : RecvReq := { r with queued := r.queued - 1 }

theorem outstanding_submit : r.submit.outstanding = r.outstanding + 1 :=
  Nat.add_right_comm r.kernel 1 r.queued

theorem outstanding_insert : r.insert.outstanding = r.outstanding + 1 := rfl

theorem outstanding_arrive (h : 0 < r.kernel) : r.arrive.outstanding = r.outstanding := by
  change r.kernel - 1 + (r.queued + 1) = r.kernel + r.queued
  omega

theorem outstanding_take (h : 0 < r.queued) : r.take.outstanding + 1 = r.outstanding := by
  change r.kernel + (r.queued - 1) + 1 = r.kernel + r.queued
  omega

end RecvReq

/-- What `WSARecv` and `WSARecvFrom` return for an overlapped request. -/
inductive RecvOutcome where
  | succeeded : RecvOutcome
  | pending : RecvOutcome
  | failed : RecvOutcome
  deriving DecidableEq

/-- How a read request was completed: with an error, or with a number of bytes, which may be all
that its buffer can take. -/
inductive ReadCompletion where
  | failed : ReadCompletion
  | succeeded (bytes : ℕ) (full : Bool) : ReadCompletion

/-- What a nonblocking `WSARecv` returns. -/
inductive LoopRecv where
  | bytes (full : Bool) : LoopRecv
  | eof : LoopRecv
  | wouldBlock : LoopRecv
  | failed : LoopRecv
  deriving DecidableEq

/-- What `uv_process_tcp_read_req` does after `read_cb`: the next nonblocking read, the code at
`done`, or nothing but to leave. -/
inductive AfterReadCb where
  | again : AfterReadCb
  | done : AfterReadCb
  | leave : AfterReadCb
  deriving DecidableEq

/-- No function of the handle runs, or one is in a callback: `alloc_cb` or `read_cb` for the read
request, or the callback of another request. -/
inductive TcpReadPhase where
  | idle : TcpReadPhase
  | alloc : TcpReadPhase
  | readCb (after : AfterReadCb) : TcpReadPhase
  | otherCb : TcpReadPhase
  deriving DecidableEq

def TcpReadPhase.processed : TcpReadPhase → ℕ
  | .idle => 0
  | _ => 1

/-- The reading side of `uv_tcp_t`. `waitHandle` says that `read_req.wait_handle` is valid, and
`others` counts the requests of the handle for writing, connecting and shutting down. -/
structure TcpRead where
  reading : Bool
  readPending : Bool
  zeroRead : Bool
  readable : Bool
  closing : Bool
  syncBypass : Bool
  emulateIocp : Bool
  waitHandle : Bool
  activecnt : ℤ
  reqsPending : ℕ
  readReq : RecvReq
  others : ℕ
  phase : TcpReadPhase

namespace TcpRead

variable (s : TcpRead)

/-- `INCREASE_ACTIVE_COUNT`; `none` is the assertion of `uv__handle_start`. -/
def increaseActive : Option TcpRead :=
  if s.activecnt = 0 ∧ s.closing then none else some { s with activecnt := s.activecnt + 1 }

/-- `DECREASE_ACTIVE_COUNT` without its assertion. -/
def decreaseActive : TcpRead := { s with activecnt := s.activecnt - 1 }

/-- `DECREASE_PENDING_REQ_COUNT` at the end of a function. -/
def decreasePending : Option TcpRead :=
  if s.reqsPending = 0 then none
  else some { s with reqsPending := s.reqsPending - 1, phase := .idle }

/-- `uv_tcp_queue_read`; `registered` is what `RegisterWaitForSingleObject` returns. -/
def uvTcpQueueRead (outcome : RecvOutcome) (registered : Bool) : Option TcpRead :=
  if s.reading = false ∨ s.readPending then none
  else
    let s := { s with zeroRead := true, reqsPending := s.reqsPending + 1 }
    if outcome = .failed then some { s with readReq := s.readReq.insert }
    else
      let s := { s with readPending := true }
      if outcome = .succeeded ∧ s.syncBypass then some { s with readReq := s.readReq.insert }
      else if s.emulateIocp ∧ s.waitHandle = false then
        if registered then some { s with readReq := s.readReq.submit, waitHandle := true }
        else
          let readReq := if outcome = .pending then s.readReq.submit else s.readReq
          some { s with readReq := readReq.insert }
      else some { s with readReq := s.readReq.submit }

/-- `uv_read_start` and `uv_tcp_read_start` -/
def uvReadStart (outcome : RecvOutcome) (registered : Bool) : Option TcpRead :=
  if s.reading then some s
  else if s.readable = false then some s
  else do
    let s ← { s with reading := true }.increaseActive
    if s.readPending = false then s.uvTcpQueueRead outcome registered else some s

def uvReadStop : TcpRead := if s.reading then { s with reading := false }.decreaseActive else s

def uvTcpClose : Option TcpRead :=
  if s.closing then none
  else some { s.uvReadStop with readable := false, closing := true }

/-! ### Processing -/

/-- The code at `done` of `uv_process_tcp_read_req`. -/
def atDone (outcome : RecvOutcome) (registered : Bool) : Option TcpRead :=
  if s.reading ∧ s.readPending = false then
    s.uvTcpQueueRead outcome registered >>= decreasePending
  else s.decreasePending

/-- The head of the loop that reads until the buffer of the socket is empty. -/
def readLoop (outcome : RecvOutcome) (registered : Bool) : Option TcpRead :=
  if s.reading then some { s with phase := .alloc } else s.atDone outcome registered

def endReading (after : AfterReadCb) : TcpRead :=
  { { s with reading := false }.decreaseActive with phase := .readCb after }

/-- `uv_process_tcp_read_req` up to its first callback. -/
def uvProcessTcpReadReq (completion : ReadCompletion) (outcome : RecvOutcome) (registered : Bool) :
    Option TcpRead :=
  let s := { s with readReq := s.readReq.take, readPending := false }
  match completion with
  | .failed =>
    if s.reading ∨ s.zeroRead = false then some (s.endReading .leave) else s.decreasePending
  | .succeeded bytes full =>
    if s.zeroRead then s.readLoop outcome registered
    else if 0 < bytes then some { s with phase := .readCb (if full then .again else .done) }
    else
      let s := if s.reading then s.endReading .done else { s with phase := .readCb .done }
      some { s with readable := false }

/-- A round of the loop after `alloc_cb` has given `len` bytes. -/
def recvRound (len : ℕ) (result : LoopRecv) : TcpRead :=
  if len = 0 then { s with phase := .readCb .done }
  else
    match result with
    | .bytes full => { s with phase := .readCb (if full then .again else .done) }
    | .eof => { s.endReading .done with readable := false }
    | .wouldBlock => { s with phase := .readCb .done }
    | .failed => s.endReading .done

/-- A callback returns. -/
def returned (outcome : RecvOutcome) (registered : Bool) : Option TcpRead :=
  match s.phase with
  | .readCb .again => s.readLoop outcome registered
  | .readCb .done => s.atDone outcome registered
  | _ => s.decreasePending

/-! ### Events -/

/-- The kernel completes the read request, the loop handles it, a callback returns, another request
begins or is handled, or the user calls. -/
inductive Event where
  | arrive : Event
  | process (completion : ReadCompletion) (outcome : RecvOutcome) (registered : Bool) : Event
  | buffer (len : ℕ) (result : LoopRecv) : Event
  | returned (outcome : RecvOutcome) (registered : Bool) : Event
  | reqBegin : Event
  | reqDone : Event
  | readStart (outcome : RecvOutcome) (registered : Bool) : Event
  | readStop : Event
  | close : Event

/-- The events that can happen. The user calls from every callback, and outside of all. -/
def Enabled : Event → Prop
  | .arrive => 0 < s.readReq.kernel
  | .process _ _ _ => s.phase = .idle ∧ 0 < s.readReq.queued
  | .buffer _ _ => s.phase = .alloc
  | .returned _ _ => s.phase ≠ .idle ∧ s.phase ≠ .alloc
  | .reqBegin => s.closing = false
  | .reqDone => s.phase = .idle ∧ 0 < s.others
  | .readStart _ _ => True
  | .readStop => True
  | .close => s.closing = false

instance (e : Event) : Decidable (s.Enabled e) := by
  cases e <;> unfold Enabled <;> infer_instance

def next : Event → Option TcpRead
  | .arrive => some { s with readReq := s.readReq.arrive }
  | .process completion outcome registered => s.uvProcessTcpReadReq completion outcome registered
  | .buffer len result => some (s.recvRound len result)
  | .returned outcome registered => s.returned outcome registered
  | .reqBegin => { s with reqsPending := s.reqsPending + 1, others := s.others + 1 }.increaseActive
  | .reqDone => some { s.decreaseActive with others := s.others - 1, phase := .otherCb }
  | .readStart outcome registered => s.uvReadStart outcome registered
  | .readStop => some s.uvReadStop
  | .close => s.uvTcpClose

def step (e : Event) : Option TcpRead := if s.Enabled e then s.next e else none

def Step (s : TcpRead) (e : Event) (t : TcpRead) : Prop := s.step e = some t

structure Init (s : TcpRead) : Prop where
  reading : s.reading = false
  readPending : s.readPending = false
  closing : s.closing = false
  activecnt : s.activecnt = 0
  reqsPending : s.reqsPending = 0
  readReq : s.readReq = ⟨0, 0⟩
  others : s.others = 0
  phase : s.phase = .idle

end TcpRead

end LibuvWorks.Win
