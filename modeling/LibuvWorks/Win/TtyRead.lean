import LibuvWorks.Lib.Transition
import Mathlib.Algebra.GroupWithZero.Nat

/-!
# The read request of a console: `win/tty.c`

A console that is open for reading has one read request, embedded in its handle. In raw mode a wait
for input is registered for it, in line mode a thread reads a line. `TTY_READABLE` is set for good
on such a handle, which has no other requests. What the cancellation of a line does is left out but
for `UV_HANDLE_CANCELLATION_PENDING`.
-/
namespace LibuvWorks.Win

/-- The read request: how many registered waits and threads have it, how often it is on the way to
the loop, in the completion port or in `pending_reqs_tail`, and the status in its overlapped part.
-/
structure TtyReadReq where
  waits : ℕ
  threads : ℕ
  queued : ℕ
  failed : Bool
  deriving DecidableEq

namespace TtyReadReq

variable (r : TtyReadReq)

def outstanding : ℕ := r.waits + r.threads + r.queued

/-- `RegisterWaitForSingleObject` -/
def wait : TtyReadReq := { r with waits := r.waits + 1, failed := false }

/-- `QueueUserWorkItem` -/
def spawn : TtyReadReq := { r with threads := r.threads + 1, failed := false }

/-- `SET_REQ_SUCCESS` or `SET_REQ_ERROR`, and `uv_insert_pending_req` -/
def insert (failed : Bool) : TtyReadReq := { r with queued := r.queued + 1, failed }

/-- `uv_tty_post_raw_read` -/
def signalled : TtyReadReq :=
  { r with waits := r.waits - 1, queued := r.queued + 1, failed := false }

/-- `uv_tty_line_read_thread` -/
def lineRead (failed : Bool) : TtyReadReq :=
  { r with threads := r.threads - 1, queued := r.queued + 1, failed }

def take : TtyReadReq := { r with queued := r.queued - 1 }

end TtyReadReq

/-- What `uv_process_tty_read_raw_req` makes of a call of `ReadConsoleInputW`: the call fails, the
record is skipped, its character cannot be converted, or it is a key of so many bytes. -/
inductive InputRecord where
  | unread : InputRecord
  | skipped : InputRecord
  | unconverted : InputRecord
  | key (len repeatCount : ℕ) : InputRecord

/-- A function of the handle that has not returned. `rawLoop` is at the head of its loop; the
others are in a callback: in `alloc_cb` or `read_cb` for a key, in the `read_cb` before `out`, or in
`alloc_cb` or `read_cb` of `uv_tty_queue_read_line`, which `uv_tty_read_start` or the processing of
the request has called. -/
inductive TtyFrame where
  | rawLoop (recordsLeft bufUsed bufLen : ℕ) : TtyFrame
  | rawAlloc (recordsLeft : ℕ) : TtyFrame
  | rawFull (recordsLeft : ℕ) : TtyFrame
  | last : TtyFrame
  | lineAlloc (processing : Bool) : TtyFrame
  | lineNobufs (processing : Bool) : TtyFrame
  deriving DecidableEq

/-- The request that is processed below a frame. -/
def TtyFrame.processed : TtyFrame → ℕ
  | .lineAlloc processing => processing.toNat
  | .lineNobufs processing => processing.toNat
  | _ => 1

/-- The reading side of `uv_tty_t`. `lineBuffer` is the length of `read_line_buffer`, `rawWait`
says that `read_raw_wait` is set, and `frames` are the functions that run, the last one first. -/
structure TtyRead where
  reading : Bool
  readPending : Bool
  raw : Bool
  readable : Bool
  cancellationPending : Bool
  closing : Bool
  closed : Bool
  endgameQueued : Bool
  activecnt : ℤ
  reqsPending : ℕ
  lineBuffer : ℕ
  lastKeyLen : ℕ
  lastKeyOffset : ℕ
  repeatCount : ℕ
  rawWait : Bool
  readReq : TtyReadReq
  frames : List TtyFrame
  deriving DecidableEq

namespace TtyRead

variable (s : TtyRead)

/-- `INCREASE_ACTIVE_COUNT`; `none` is the assertion of `uv__handle_start`. -/
def increaseActive : Option TtyRead :=
  if s.activecnt = 0 ∧ s.closing then none else some { s with activecnt := s.activecnt + 1 }

/-- `DECREASE_ACTIVE_COUNT` -/
def decreaseActive : Option TtyRead :=
  if s.activecnt ≤ 0 then none else some { s with activecnt := s.activecnt - 1 }

/-- `DECREASE_PENDING_REQ_COUNT` -/
def decreasePending : Option TtyRead :=
  if s.reqsPending = 0 then none
  else
    some { s with
      reqsPending := s.reqsPending - 1
      endgameQueued := s.endgameQueued || (s.closing && s.reqsPending == 1) }

def enter (frame : TtyFrame) : TtyRead := { s with frames := frame :: s.frames }

/-! ### Queueing a read -/

/-- `uv_tty_queue_read_raw`; `registered` is what `RegisterWaitForSingleObject` returns, and the
handle is valid until it is closed. -/
def uvTtyQueueReadRaw (registered : Bool) : Option TtyRead :=
  if s.reading = false ∨ s.readPending ∨ s.closing then none
  else
    some { s with
      lineBuffer := 0
      rawWait := registered
      readReq := if registered then s.readReq.wait else s.readReq.insert true
      readPending := true
      reqsPending := s.reqsPending + 1 }

/-- `uv_tty_queue_read_line` up to `alloc_cb` -/
def uvTtyQueueReadLine (processing : Bool) : Option TtyRead :=
  if s.reading = false ∨ s.readPending ∨ s.closing then none
  else some ({ s with lineBuffer := 0 }.enter (.lineAlloc processing))

/-- `uv_tty_queue_read_line` with the buffer; `spawned` is what `QueueUserWorkItem` returns. -/
def submitLine (spawned : Bool) : TtyRead :=
  { s with
    readReq := if spawned then s.readReq.spawn else s.readReq.insert true
    readPending := true
    reqsPending := s.reqsPending + 1 }

/-- What a caller of `uv_tty_queue_read` does when it returns. -/
def afterQueue (processing : Bool) : Option TtyRead :=
  if processing then s.decreasePending else some s

def uvTtyQueueRead (processing registered : Bool) : Option TtyRead :=
  if s.raw then s.uvTtyQueueReadRaw registered >>= (·.afterQueue processing)
  else s.uvTtyQueueReadLine processing

/-! ### The calls of the user -/

def uvTtyReadStart (registered : Bool) : Option TtyRead := do
  let s ← { s with reading := true }.increaseActive
  if s.readPending then some s
  else if 0 < s.lastKeyLen then some { s with readReq := s.readReq.insert false }
  else s.uvTtyQueueRead false registered

def uvReadStart (registered : Bool) : Option TtyRead :=
  if s.reading then some s
  else if s.readable = false then some s
  else s.uvTtyReadStart registered

/-- `uv_tty_read_stop`; `written` says that the wait or the thread could be told to stop. -/
def uvTtyReadStop (written : Bool) : Option TtyRead := do
  let s ← { s with reading := false }.decreaseActive
  if s.readPending ∧ s.raw = false ∧ s.cancellationPending = false ∧ written then
    some { s with cancellationPending := true }
  else some s

/-- `uv_tty_read_stop` returns an error. -/
def readStopFails (written : Bool) : Bool :=
  s.readPending && (s.raw || !s.cancellationPending) && !written

def uvReadStop (written : Bool) : Option TtyRead :=
  if s.reading then s.uvTtyReadStop written else some s

def uvTtyClose (written : Bool) : Option TtyRead := do
  let s ← s.uvReadStop written
  if s.closing then none
  else
    some { s with
      readable := false
      closing := true
      endgameQueued := s.endgameQueued || s.reqsPending == 0 }

/-- `uv_tty_set_mode` for another mode than the present; `modeSet` is what `SetConsoleMode`
returns. -/
def uvTtySetMode (written modeSet registered : Bool) : Option TtyRead :=
  if s.reading then do
    let t ← s.uvTtyReadStop written
    if s.readStopFails written ∨ modeSet = false then some t
    else uvTtyReadStart { t with raw := !t.raw } registered
  else if modeSet then some { s with raw := !s.raw }
  else some s

def uvTtyEndgame : Option TtyRead :=
  let s := { s with endgameQueued := false }
  if s.closing ∧ s.reqsPending = 0 then
    if s.rawWait ∨ s.closed then none else some { s with closed := true }
  else some s

/-! ### Processing -/

/-- The code at `out`. -/
def out (registered : Bool) : Option TtyRead :=
  if s.reading ∧ s.readPending = false then s.uvTtyQueueRead true registered
  else s.decreasePending

def endReading : Option TtyRead := do
  let s ← { s with reading := false }.decreaseActive
  some (s.enter .last)

/-- `uv_process_tty_read_raw_req` up to its loop; `count` is what `GetNumberOfConsoleInputEvents`
says. -/
def uvProcessTtyReadRawReq (count : Option ℕ) (registered : Bool) : Option TtyRead :=
  let s := { s with readPending := false }
  if s.reading = false ∨ s.raw = false then s.out registered
  else if s.readReq.failed then some ({ s with reading := false }.enter .last)
  else
    match count with
    | none => s.endReading
    | some recordsLeft => some (s.enter (.rawLoop recordsLeft 0 0))

/-- `uv_process_tty_read_line_req` up to `read_cb` -/
def uvProcessTtyReadLineReq : Option TtyRead :=
  let s := { s with readPending := false, lineBuffer := 0 }
  if s.readReq.failed then
    if s.reading then s.endReading else some (s.enter .last)
  else some ({ s with cancellationPending := false }.enter .last)

def uvProcessTtyReadReq (count : Option ℕ) (registered : Bool) : Option TtyRead :=
  let s := { s with readReq := s.readReq.take }
  if s.lineBuffer = 0 then s.uvProcessTtyReadRawReq count registered
  else s.uvProcessTtyReadLineReq

/-- A byte of the key goes to a buffer that has `bufUsed` of them. -/
def copyByte (recordsLeft bufUsed bufLen : ℕ) : TtyRead :=
  let s := { s with lastKeyOffset := s.lastKeyOffset + 1 }
  if bufUsed + 1 = bufLen then s.enter (.rawFull recordsLeft)
  else s.enter (.rawLoop recordsLeft (bufUsed + 1) bufLen)

/-- An input record that has been read. -/
def takeRecord (recordsLeft bufUsed bufLen : ℕ) : InputRecord → Option TtyRead
  | .unread => s.endReading
  | .skipped => some (s.enter (.rawLoop (recordsLeft - 1) bufUsed bufLen))
  | .unconverted => s.endReading
  | .key len repeatCount =>
    let s := { s with lastKeyLen := len, lastKeyOffset := 0, repeatCount }
    some (s.enter (.rawLoop (recordsLeft - 1) bufUsed bufLen))

/-- A round of the loop of `uv_process_tty_read_raw_req`; `wRepeatCount` has 16 bits. -/
def rawRound (recordsLeft bufUsed bufLen : ℕ) (record : InputRecord) (registered : Bool) :
    Option TtyRead :=
  if (recordsLeft = 0 ∧ s.lastKeyLen = 0) ∨ s.reading = false then
    if 0 < bufUsed then some (s.enter .last) else s.out registered
  else if s.lastKeyLen = 0 then s.takeRecord recordsLeft bufUsed bufLen record
  else if s.lastKeyOffset < s.lastKeyLen then
    if bufUsed = 0 then some (s.enter (.rawAlloc recordsLeft))
    else some (s.copyByte recordsLeft bufUsed bufLen)
  else
    let repeatCount := (s.repeatCount + (2 ^ 16 - 1)) % 2 ^ 16
    let s := { s with
      repeatCount
      lastKeyOffset := if 0 < repeatCount then 0 else s.lastKeyOffset
      lastKeyLen := if 0 < repeatCount then s.lastKeyLen else 0 }
    some (s.enter (.rawLoop recordsLeft bufUsed bufLen))

/-! ### Events -/

/-- The wait is over, the thread has read a line, the loop handles the request or the endgame, the
code in the loop goes on, a callback returns, or the user calls. -/
inductive Event where
  | signalled : Event
  | lineRead (failed : Bool) : Event
  | process (count : Option ℕ) (registered : Bool) : Event
  | endgame : Event
  | round (record : InputRecord) (registered : Bool) : Event
  | buffer (base : Bool) (len : ℕ) (spawned : Bool) : Event
  | returned (registered : Bool) : Event
  | readStart (registered : Bool) : Event
  | readStop (written : Bool) : Event
  | setMode (written modeSet registered : Bool) : Event
  | close (written : Bool) : Event

def runs : Bool :=
  match s.frames.head? with
  | some (.rawLoop _ _ _) => true
  | _ => false

def allocates : Bool :=
  match s.frames.head? with
  | some (.rawAlloc _) => true
  | some (.lineAlloc _) => true
  | _ => false

def reads : Bool :=
  match s.frames.head? with
  | some (.rawFull _) => true
  | some .last => true
  | some (.lineNobufs _) => true
  | _ => false

/-- The events that can happen. The user calls from every callback, and outside of all. -/
def Enabled : Event → Prop
  | .signalled => 0 < s.readReq.waits
  | .lineRead _ => 0 < s.readReq.threads
  | .process _ _ => s.frames = [] ∧ 0 < s.readReq.queued
  | .endgame => s.frames = [] ∧ s.endgameQueued = true
  | .round _ _ => s.runs = true
  | .buffer _ _ _ => s.allocates = true
  | .returned _ => s.reads = true
  | .readStart _ => s.runs = false ∧ s.closed = false
  | .readStop _ => s.runs = false ∧ s.closed = false
  | .setMode _ _ _ => s.runs = false ∧ s.closing = false
  | .close _ => s.runs = false ∧ s.closing = false

instance (e : Event) : Decidable (s.Enabled e) := by
  cases e <;> unfold Enabled <;> infer_instance

/-- `alloc_cb` returns a buffer. -/
def buffered (base : Bool) (len : ℕ) (spawned : Bool) : Option TtyRead :=
  match s.frames with
  | .rawAlloc recordsLeft :: frames =>
    let s := { s with frames }
    if base = false ∨ len = 0 then some (s.enter .last) else some (s.copyByte recordsLeft 0 len)
  | .lineAlloc processing :: frames =>
    let s := { s with frames, lineBuffer := len }
    if base = false ∨ len = 0 then some (s.enter (.lineNobufs processing))
    else (s.submitLine spawned).afterQueue processing
  | _ => none

/-- `read_cb` returns. -/
def returned (registered : Bool) : Option TtyRead :=
  match s.frames with
  | .rawFull recordsLeft :: frames => some ({ s with frames }.enter (.rawLoop recordsLeft 0 0))
  | .last :: frames => { s with frames }.out registered
  | .lineNobufs processing :: frames => { s with frames }.afterQueue processing
  | _ => none

def round (record : InputRecord) (registered : Bool) : Option TtyRead :=
  match s.frames with
  | .rawLoop recordsLeft bufUsed bufLen :: frames =>
    { s with frames }.rawRound recordsLeft bufUsed bufLen record registered
  | _ => none

def next : Event → Option TtyRead
  | .signalled => some { s with rawWait := false, readReq := s.readReq.signalled }
  | .lineRead failed => some { s with readReq := s.readReq.lineRead failed }
  | .process count registered => s.uvProcessTtyReadReq count registered
  | .endgame => s.uvTtyEndgame
  | .round record registered => s.round record registered
  | .buffer base len spawned => s.buffered base len spawned
  | .returned registered => s.returned registered
  | .readStart registered => s.uvReadStart registered
  | .readStop written => s.uvReadStop written
  | .setMode written modeSet registered => s.uvTtySetMode written modeSet registered
  | .close written => s.uvTtyClose written

def step (e : Event) : Option TtyRead := if s.Enabled e then s.next e else none

def Step (s : TtyRead) (e : Event) (t : TtyRead) : Prop := s.step e = some t

/-- A console that `uv_tty_init` has opened for reading, in either mode. -/
structure Init (s : TtyRead) : Prop where
  reading : s.reading = false
  readPending : s.readPending = false
  readable : s.readable = true
  closing : s.closing = false
  closed : s.closed = false
  endgameQueued : s.endgameQueued = false
  activecnt : s.activecnt = 0
  reqsPending : s.reqsPending = 0
  lineBuffer : s.lineBuffer = 0
  lastKeyLen : s.lastKeyLen = 0
  rawWait : s.rawWait = false
  readReq : s.readReq = ⟨0, 0, 0, false⟩
  frames : s.frames = []

end TtyRead

end LibuvWorks.Win
