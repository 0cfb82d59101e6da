import LibuvWorks.Lib.Transition
import Mathlib.Algebra.Group.Int.Defs
import Mathlib.Algebra.Group.Nat.Defs
import Mathlib.Data.Int.Basic

/-!
# The watchers of a unix loop: `uv__io_t` and `uv__io_poll`

A loop keeps a table that takes a descriptor to the watcher started on it. The two slots after
the table hold the events that `uv__io_poll` is dispatching, and their number.
-/
namespace LibuvWorks.Unix

open Function (update)

abbrev Events := BitVec 32

def pollIn : Events := 0x001

def pollOut : Events := 0x004

def pollErr : Events := 0x008

def pollHup : Events := 0x010

def uvPollRdhup : Events := 0x2000

def pollAll : Events := pollIn ||| pollOut ||| uvPollRdhup

/-- `uv__io_t`, without its callback and its queues. -/
structure Io where
  fd : ℤ
  events : Events
  pevents : Events

/-- What a slot of `loop->watchers` points to; the last two are those after the table. -/
inductive Slot where
  | null : Slot
  | watcher (w : ℕ) : Slot
  | events : Slot
  | count (nfds : ℕ) : Slot
  deriving DecidableEq

/-- `uv__epoll_event` -/
structure EpollEvent where
  events : Events
  data : ℤ

/-- The events of `uv__io_poll` while it dispatches them, the next one, and `have_signals`. -/
structure Batch where
  events : List EpollEvent
  i : ℕ
  haveSignals : Bool

/-- The links of `pending_queue`, in the watchers and in the loop (`none`). -/
structure Links where
  next : Option ℕ → Option ℕ
  prev : Option ℕ → Option ℕ

namespace Links

variable (l : Links)

/-- `QUEUE_EMPTY` -/
def isEmpty (q : Option ℕ) : Bool := q = l.next q

/-- `QUEUE_INIT` -/
def init (q : Option ℕ) : Links := ⟨update l.next q q, update l.prev q q⟩

/-- `QUEUE_INSERT_TAIL` at the queue of the loop. -/
def insertTail (q : Option ℕ) : Links :=
  let next := update l.next q none
  let prev := update l.prev q (l.prev none)
  ⟨update next (prev q) q, update prev none q⟩

/-- `QUEUE_REMOVE`, which leaves the links of the element itself. -/
def remove (q : Option ℕ) : Links :=
  let next := update l.next (l.prev q) (l.next q)
  ⟨next, update l.prev (next q) (l.prev q)⟩

end Links

/-- The part of `uv_loop_t` that is about watchers; `allocated` says that `watchers` is not null.
`interest` is the kernel's set of `backend_fd`, by descriptor. -/
structure IoLoop where
  io : ℕ → Io
  pendingQueue : Links
  watcherQueue : List ℕ
  allocated : Bool
  watchers : ℕ → Slot
  nwatchers : ℕ
  nfds : ℕ
  interest : ℕ → Option Events
  batch : Option Batch

/-- `loop->signal_io_watcher` -/
def signalIoWatcher : ℕ := 0

namespace IoLoop

variable (s : IoLoop)

@[simps] def setIo (w : ℕ) (x : Io) : IoLoop := { s with io := update s.io w x }

/-- A watcher enters `watcher_queue` unless it is there. -/
@[simps] def enqueue (w : ℕ) : IoLoop :=
  { s with watcherQueue := if w ∈ s.watcherQueue then s.watcherQueue else s.watcherQueue ++ [w] }

@[simps] def dequeue (w : ℕ) : IoLoop := { s with watcherQueue := s.watcherQueue.erase w }

/-! ### `core.c` -/

/-- `next_power_of_two`, with an `unsigned int`. -/
def nextPowerOfTwo (val : ℕ) : ℕ :=
  let val := (val + (2 ^ 32 - 1)) % 2 ^ 32
  let val := val ||| val >>> 1
  let val := val ||| val >>> 2
  let val := val ||| val >>> 4
  let val := val ||| val >>> 8
  let val := val ||| val >>> 16
  (val + 1) % 2 ^ 32

/-- `maybe_resize`; `none` is an `abort`. A `realloc` of no bytes gives a null pointer. -/
def maybeResize (len : ℕ) : Option IoLoop :=
  if len ≤ s.nwatchers then some s
  else
    let fakeWatcherList := if s.allocated then s.watchers s.nwatchers else .null
    let fakeWatcherCount := if s.allocated then s.watchers (s.nwatchers + 1) else .null
    let nwatchers := (nextPowerOfTwo (len + 2) + (2 ^ 32 - 2)) % 2 ^ 32
    if (nwatchers + 2) % 2 ^ 32 = 0 then none
    else
      let watchers := fun i => if s.nwatchers ≤ i ∧ i < nwatchers then .null else s.watchers i
      some { s with
        allocated := true
        watchers := update (update watchers nwatchers fakeWatcherList) (nwatchers + 1)
          fakeWatcherCount
        nwatchers := nwatchers }

/-- `uv__io_init` of a watcher that is not in `watcher_queue`. -/
def uvIoInit (w : ℕ) (fd : ℤ) : IoLoop :=
  { s.setIo w ⟨fd, 0, 0⟩ with pendingQueue := s.pendingQueue.init (some w) }

/-- `uv__io_start`; `none` is an assertion that fails, or an `abort`. -/
def uvIoStart (w : ℕ) (events : Events) : Option IoLoop :=
  if events &&& ~~~pollAll ≠ 0 ∨ events = 0 ∨ (s.io w).fd < 0 ∨ 2 ^ 31 - 1 ≤ (s.io w).fd then none
  else
    let io := { s.io w with pevents := (s.io w).pevents ||| events }
    let fd := io.fd.toNat
    ((s.setIo w io).maybeResize (fd + 1)).map fun s =>
      if io.events = io.pevents then if io.events = 0 then s.dequeue w else s
      else
        let s := s.enqueue w
        if s.watchers fd = .null then
          { s with watchers := update s.watchers fd (.watcher w), nfds := s.nfds + 1 }
        else s

def uvIoStop (w : ℕ) (events : Events) : Option IoLoop :=
  if events &&& ~~~pollAll ≠ 0 ∨ events = 0 then none
  else if (s.io w).fd = -1 then some s
  else if (s.io w).fd < 0 then none
  else if s.nwatchers ≤ (s.io w).fd.toNat then some s
  else
    let io := { s.io w with pevents := (s.io w).pevents &&& ~~~events }
    let fd := io.fd.toNat
    let s := s.setIo w io
    if io.pevents = 0 then
      let s := s.dequeue w
      if s.watchers fd = .null then some s
      else if s.watchers fd ≠ .watcher w ∨ s.nfds = 0 then none
      else
        some { s.setIo w { io with events := 0 } with
          watchers := update s.watchers fd .null
          nfds := s.nfds - 1 }
    else some (s.enqueue w)

def uvIoFeed (w : ℕ) : IoLoop :=
  if s.pendingQueue.isEmpty (some w) then
    { s with pendingQueue := s.pendingQueue.insertTail (some w) }
  else s

/-! ### `linux-core.c` -/

inductive EpollOp where
  | add : EpollOp
  | mod : EpollOp
  | del : EpollOp
  deriving DecidableEq

/-- The errors of `epoll_ctl` that depend on its set. -/
inductive EpollErrno where
  | exist : EpollErrno
  | noent : EpollErrno

/-- `epoll_ctl` on an open descriptor. -/
def epollCtl (op : EpollOp) (fd : ℕ) (events : Events) : Except EpollErrno IoLoop :=
  match op, s.interest fd with
  | .add, some _ => .error .exist
  | .add, none => .ok { s with interest := update s.interest fd (some events) }
  | .mod, some _ => .ok { s with interest := update s.interest fd (some events) }
  | .mod, none => .error .noent
  | .del, some _ => .ok { s with interest := update s.interest fd none }
  | .del, none => .error .noent

/-- `EPOLL_CTL_DEL`, its errors ignored. -/
def disarm (fd : ℤ) : IoLoop :=
  if fd < 0 then s
  else
    match s.epollCtl .del fd.toNat 0 with
    | .ok s => s
    | .error _ => s

def invalidate (fd : ℤ) (nfds : ℕ) (events : List EpollEvent) : List EpollEvent :=
  (events.take nfds).map (fun e => if e.data = fd then { e with data := -1 } else e) ++
    events.drop nfds

def uvPlatformInvalidateFd (fd : ℤ) : Option IoLoop :=
  if !s.allocated then none
  else
    match s.watchers s.nwatchers, s.watchers (s.nwatchers + 1) with
    | .null, _ => some (s.disarm fd)
    | .events, .count nfds =>
      let batch := s.batch.map fun b => { b with events := invalidate fd nfds b.events }
      some ({ s with batch := batch }.disarm fd)
    | _, _ => none

def uvIoClose (w : ℕ) : Option IoLoop :=
  (s.uvIoStop w pollAll).bind fun s =>
    { s with pendingQueue := s.pendingQueue.remove (some w) }.uvPlatformInvalidateFd (s.io w).fd

/-- The turn of a watcher in the first loop of `uv__io_poll`. -/
def register (w : ℕ) : Option IoLoop :=
  let s := s.dequeue w
  let io := s.io w
  let fd := io.fd.toNat
  if io.pevents = 0 ∨ io.fd < 0 ∨ s.nwatchers ≤ fd then none
  else
    let op : EpollOp := if io.events = 0 then .add else .mod
    let registered : Option IoLoop :=
      match s.epollCtl op fd io.pevents with
      | .ok s => some s
      | .error .noent => none
      | .error .exist => if op ≠ .add then none else (s.epollCtl .mod fd io.pevents).toOption
    registered.map fun s => s.setIo w { io with events := io.pevents }

def registerAll (s : IoLoop) : List ℕ → Option IoLoop
  | [] => some s
  | w :: ws => (s.register w).bind fun s => s.registerAll ws

/-- `uv__io_poll` before it waits. -/
def registration : Option IoLoop :=
  if s.nfds = 0 then if s.watcherQueue = [] then some s else none
  else s.registerAll s.watcherQueue

/-- `epoll_wait` has returned events. -/
def wait (events : List EpollEvent) : Option IoLoop :=
  if !s.allocated then none
  else
    some { s with
      batch := some ⟨events, 0, false⟩
      watchers := update (update s.watchers s.nwatchers .events) (s.nwatchers + 1)
        (.count events.length) }

/-- What a watcher that asks for `pevents` is given of the events of its descriptor. -/
def deliverable (events pevents : Events) : Events :=
  let events := events &&& (pevents ||| pollErr ||| pollHup)
  if events = pollErr ∨ events = pollHup then events ||| (pevents &&& (pollIn ||| pollOut))
  else events

/-- The turn of one event, and the callback that it runs. -/
def turn : Option (IoLoop × Option (ℕ × Events)) :=
  s.batch.bind fun b => b.events[b.i]?.bind fun pe =>
    let b := { b with i := b.i + 1 }
    let s := { s with batch := some b }
    if pe.data = -1 then some (s, none)
    else if pe.data < 0 ∨ s.nwatchers ≤ pe.data.toNat then none
    else
      match s.watchers pe.data.toNat with
      | .watcher w =>
        let events := deliverable pe.events (s.io w).pevents
        if events = 0 then some (s, none)
        else if w = signalIoWatcher then
          some ({ s with batch := some { b with haveSignals := true } }, none)
        else some (s, some (w, events))
      | .null => some (s.disarm pe.data, none)
      | .events | .count _ => none

/-- The callback of the signal watcher, after the others. -/
def signals : Option (IoLoop × Option (ℕ × Events)) :=
  s.batch.bind fun b =>
    if b.i = b.events.length ∧ b.haveSignals then
      some ({ s with batch := some { b with haveSignals := false } }, some (signalIoWatcher, pollIn))
    else none

/-- The end of the batch. -/
def finish : Option IoLoop :=
  s.batch.bind fun b =>
    if b.i = b.events.length ∧ b.haveSignals = false then
      some { s with
        batch := none
        watchers := update (update s.watchers s.nwatchers .null) (s.nwatchers + 1) .null }
    else none

end IoLoop

end LibuvWorks.Unix
