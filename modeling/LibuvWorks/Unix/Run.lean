import LibuvWorks.Lib.Transition
import LibuvWorks.Unix.RunTimers

/-!
# `uv_run` of `unix/core.c`

The loop runs callbacks in the order of the phases of `uv_run`. One `runStep` is
the work up to the next callback, and that callback; what a callback does, what
the clock shows and which events the poll reports are its `Input`.
-/
namespace LibuvWorks.Unix

variable {ι γ : Type*} [DecidableEq ι]

/-! ## What a callback can do to the loop -/

inductive LoopOp (ι γ : Type*) where
  | timer : TimerOp ι γ → LoopOp ι γ
  | watcherStart : WatcherKind → ι → Option γ → LoopOp ι γ
  | watcherStop : WatcherKind → ι → LoopOp ι γ
  | close : Handle ι → Option γ → LoopOp ι γ
  | ref : Handle ι → LoopOp ι γ
  | unref : Handle ι → LoopOp ι γ
  /-- A stream starts or stops to wait for events, or has a callback to run. -/
  | streamStart : ι → LoopOp ι γ
  | streamStop : ι → LoopOp ι γ
  | ioFeed : ι → LoopOp ι γ
  | reqRegister : LoopOp ι γ
  | reqUnregister : LoopOp ι γ
  | updateTime : UInt64 → LoopOp ι γ
  | stop : LoopOp ι γ

def uvStop (l : UvLoop ι γ) : UvLoop ι γ := { l with stopFlag := true }

def uvUpdateTime (l : UvLoop ι γ) (t : UInt64) : UvLoop ι γ := { l with time := t }

def uvReqRegister (l : UvLoop ι γ) : UvLoop ι γ := { l with activeReqs := l.activeReqs + 1 }

def uvReqUnregister (l : UvLoop ι γ) : Except Fault (UvLoop ι γ) :=
  if l.activeReqs = 0 then .error .assertion else .ok { l with activeReqs := l.activeReqs - 1 }

def LoopOp.exec (l : UvLoop ι γ) : LoopOp ι γ → Except Fault (UvLoop ι γ)
  | timer op => op.exec l
  | watcherStart k w cb => .ok (uvWatcherStart l k w cb).2
  | watcherStop k w => .ok (uvWatcherStop l k w)
  | close h closeCb => uvClose l h closeCb
  | ref h => .ok (uvHandleRef l h)
  | unref h => .ok (uvHandleUnref l h)
  | streamStart s => .ok (uvHandleStart l (.stream s))
  | streamStop s => .ok (uvHandleStop l (.stream s))
  | ioFeed s => .ok (uvIoFeed l s)
  | reqRegister => .ok (uvReqRegister l)
  | reqUnregister => uvReqUnregister l
  | updateTime t => .ok (uvUpdateTime l t)
  | stop => .ok (uvStop l)

def runOps (l : UvLoop ι γ) (ops : List (LoopOp ι γ)) : Except Fault (UvLoop ι γ) :=
  ops.foldlM LoopOp.exec l

/-! ## The poll timeout -/

def uvLoopAlive (l : UvLoop ι γ) : Bool :=
  l.activeHandles > 0 || l.activeReqs > 0 || !l.closingHandles.isEmpty

def uvBackendTimeout (l : UvLoop ι γ) : ℤ :=
  if l.stopFlag then 0
  else if ¬ uvLoopAlive l then 0
  else if l.watcherHandles .idle ≠ [] then 0
  else if l.pendingQueue ≠ [] then 0
  else uvNextTimeout l

/-! ## Close callbacks -/

/-- The `switch (handle->type)` of `uv__finish_close`: `destroyOps` are the operations of
the callbacks that `uv__stream_destroy` runs. -/
def uvTypeDestroy (l : UvLoop ι γ) (destroyOps : List (LoopOp ι γ)) :
    Handle ι → Except Fault (UvLoop ι γ)
  | .stream _ => runOps l destroyOps
  | .watcher _ _ => .ok l
  | .timer _ => .ok l

/-- `uv__finish_close`; `ops` are the operations of the close callback. -/
def uvFinishClose (l : UvLoop ι γ) (h : Handle ι) (destroyOps ops : List (LoopOp ι γ)) :
    Except Fault (UvLoop ι γ) :=
  if (l.flags h).closing = true ∧ (l.flags h).closed = false then do
    let l ← uvTypeDestroy (l.setFlags h { l.flags h with closed := true }) destroyOps h
    let l := uvHandleUnref l h
    match l.closeCb h with
    | none => .ok l
    | some _ => runOps l ops
  else .error .assertion

/-! ## The loop -/

/-- Where the loop thread is: outside of `uv_run`, at the head of its loop, or in one of
the phases. At `poll` the timeout has been computed and `uv__io_poll` is next; at
`events` it reports events. -/
inductive Phase where
  | user : Phase
  | head : Phase
  | timers : Phase
  | pending : Phase
  | watchers : WatcherKind → Phase
  | poll : Phase
  | events : Phase
  | closing : Phase
  | onceTimers : Phase
  | tail : Phase

/-- The loop, with the local variables of `uv_run` and `uv__run_closing_handles`. -/
structure RunState (ι γ : Type*) where
  loop : UvLoop ι γ
  phase : Phase
  mode : RunMode
  r : Bool
  ranPending : Bool
  timeout : ℤ
  closingRun : List (Handle ι)

/-- What the next step needs from outside: the operations of the callbacks it calls, the
time on the clock, the mode of a call of `uv_run`, and whether more is to come before
the phase (the program outside of `uv_run`, or the poll) goes on. -/
structure Input (ι γ : Type*) where
  ops : List (LoopOp ι γ)
  destroyOps : List (LoopOp ι γ)
  clock : UInt64
  mode : RunMode
  more : Bool

namespace RunState

variable (s : RunState ι γ)

def call (ops : List (LoopOp ι γ)) (l : UvLoop ι γ) : Except Fault (RunState ι γ) := do
  let l ← runOps l ops
  .ok { s with loop := l }

/-- `QUEUE_MOVE` of `uv__run_idle` and its siblings. -/
def startWatchers (k : WatcherKind) : RunState ι γ :=
  { s with phase := .watchers k
           loop := (s.loop.setWatcherRun k (s.loop.watcherHandles k)).setWatchers k [] }

/-- `uv__run_pending` begins. -/
def startPending : RunState ι γ :=
  if s.loop.pendingQueue = [] then { s with ranPending := false }.startWatchers .idle
  else { s with phase := .pending
                ranPending := true
                loop := { s.loop with pendingRun := s.loop.pendingQueue, pendingQueue := [] } }

/-- `if (mode == UV_RUN_ONCE && !ran_pending || mode == UV_RUN_DEFAULT)` -/
def computeTimeout : RunState ι γ :=
  { s with phase := .poll
           timeout := if (s.mode = .once ∧ s.ranPending = false) ∨ s.mode = .default
             then uvBackendTimeout s.loop else 0 }

/-- What comes after the watchers of a kind. -/
def afterWatchers : WatcherKind → RunState ι γ
  | .idle => s.startWatchers .prepare
  | .prepare => s.computeTimeout
  | .check => { s with phase := .closing
                       closingRun := s.loop.closingHandles
                       loop := { s.loop with closingHandles := [] } }

/-- One iteration of `uv__run_timers`; `next` when no timer is due. -/
def timersStep (ops : List (LoopOp ι γ)) (next : RunState ι γ) : Except Fault (RunState ι γ) :=
  match heapMin s.loop.timerHeap with
  | none => .ok next
  | some t =>
    if (s.loop.timer t).timeout > s.loop.time then .ok next
    else do
      let (_, l) ← timerFire s.loop t
      s.call ops l

end RunState

/-- The next step of a thread that runs the loop. -/
def runStep (s : RunState ι γ) (i : Input ι γ) : Except Fault (RunState ι γ) :=
  match s.phase with
  | .user =>
    if i.more then s.call i.ops s.loop
    else
      let alive := uvLoopAlive s.loop
      .ok { s with phase := .head, mode := i.mode, r := alive,
                   loop := if alive then s.loop else uvUpdateTime s.loop i.clock }
  | .head =>
    if s.r ∧ s.loop.stopFlag = false then
      .ok { s with phase := .timers, loop := uvUpdateTime s.loop i.clock }
    else .ok { s with phase := .user, loop := { s.loop with stopFlag := false } }
  | .timers => s.timersStep i.ops s.startPending
  | .pending =>
    match s.loop.pendingRun with
    | [] => .ok (s.startWatchers .idle)
    | _ :: rest => s.call i.ops { s.loop with pendingRun := rest }
  | .watchers k =>
    match s.loop.watcherRun k with
    | [] => .ok (s.afterWatchers k)
    | w :: rest =>
      s.call i.ops ((s.loop.setWatcherRun k rest).setWatchers k (s.loop.watcherHandles k ++ [w]))
  | .poll => .ok { s with phase := .events, loop := uvUpdateTime s.loop i.clock }
  | .events => if i.more then s.call i.ops s.loop else .ok (s.startWatchers .check)
  | .closing =>
    match s.closingRun with
    | [] =>
      if s.mode = .once then .ok { s with phase := .onceTimers, loop := uvUpdateTime s.loop i.clock }
      else .ok { s with phase := .tail }
    | h :: rest => do
      let l ← uvFinishClose s.loop h i.destroyOps i.ops
      .ok { s with loop := l, closingRun := rest }
  | .onceTimers => s.timersStep i.ops { s with phase := .tail }
  | .tail =>
    let alive := uvLoopAlive s.loop
    if s.mode = .default then .ok { s with phase := .head, r := alive }
    else .ok { s with phase := .user, r := alive, loop := { s.loop with stopFlag := false } }

end LibuvWorks.Unix
