import LibuvWorks.Lib.Transition
import LibuvWorks.Win.Core

/-!
# `uv_run` of `win/core.c`

As on unix, one `runStep` is the work up to the next callback, and that callback. The
poll calls none: it queues the requests whose completion it dequeues, and
`uv_process_reqs` of the next iteration handles them.
-/
namespace LibuvWorks.Win

variable {ι γ : Type*} [DecidableEq ι]

/-! ## What a callback can do to the loop -/

inductive LoopOp (ι γ : Type*) where
  | timerStart : ι → Option γ → UInt64 → UInt64 → LoopOp ι γ
  | timerStop : ι → LoopOp ι γ
  | timerAgain : ι → LoopOp ι γ
  | watcherStart : WatcherKind → ι → Option γ → LoopOp ι γ
  | watcherStop : WatcherKind → ι → LoopOp ι γ
  | close : Handle ι → Option γ → LoopOp ι γ
  | ref : Handle ι → LoopOp ι γ
  | unref : Handle ι → LoopOp ι γ
  | streamStart : ι → LoopOp ι γ
  | streamStop : ι → LoopOp ι γ
  /-- A stream starts an overlapped request. -/
  | streamReq : ι → LoopOp ι γ
  | insertPendingReq : ι → LoopOp ι γ
  | reqRegister : LoopOp ι γ
  | reqUnregister : LoopOp ι γ
  | updateTime : UInt64 → LoopOp ι γ
  | stop : LoopOp ι γ

def uvStop (l : UvLoop ι γ) : UvLoop ι γ := { l with stopFlag := true }

def uvReqRegister (l : UvLoop ι γ) : UvLoop ι γ := { l with activeReqs := l.activeReqs + 1 }

def uvReqUnregister (l : UvLoop ι γ) : Except Fault (UvLoop ι γ) :=
  if l.activeReqs = 0 then .error .assertion else .ok { l with activeReqs := l.activeReqs - 1 }

/-- A request of the stream `s` joins the end of the ring. -/
def uvInsertPendingReq (l : UvLoop ι γ) (s : ι) : UvLoop ι γ :=
  { l with pendingReqs := l.pendingReqs ++ [s] }

/-- `handle->reqs_pending++` -/
def streamReq (l : UvLoop ι γ) (s : ι) : UvLoop ι γ :=
  { l with reqsPending := Function.update l.reqsPending s (l.reqsPending s + 1) }

def decreasePendingReqCount (l : UvLoop ι γ) (s : ι) : Except Fault (UvLoop ι γ) :=
  if l.reqsPending s = 0 then .error .assertion
  else
    let l := { l with reqsPending := Function.update l.reqsPending s (l.reqsPending s - 1) }
    .ok (if (l.flags (.stream s)).closing ∧ l.reqsPending s = 0 then uvWantEndgame l (.stream s)
      else l)

def LoopOp.exec (l : UvLoop ι γ) : LoopOp ι γ → Except Fault (UvLoop ι γ)
  | timerStart t cb timeout repeatMs => Except.map Prod.snd (uvTimerStart l t cb timeout repeatMs)
  | timerStop t => uvTimerStop l t
  | timerAgain t => Except.map Prod.snd (uvTimerAgain l t)
  | watcherStart k w cb => Except.map Prod.snd (uvWatcherStart l k w cb)
  | watcherStop k w => uvWatcherStop l k w
  | close h closeCb => uvClose l h closeCb
  | ref h => .ok (uvHandleRef l h)
  | unref h => .ok (uvHandleUnref l h)
  | streamStart s => uvHandleStart l (.stream s)
  | streamStop s => uvHandleStop l (.stream s)
  | streamReq s => .ok (Win.streamReq l s)
  | insertPendingReq s => .ok (uvInsertPendingReq l s)
  | reqRegister => .ok (uvReqRegister l)
  | reqUnregister => uvReqUnregister l
  | updateTime t => uvUpdateTime l t
  | stop => .ok (uvStop l)

def runOps (l : UvLoop ι γ) (ops : List (LoopOp ι γ)) : Except Fault (UvLoop ι γ) :=
  ops.foldlM LoopOp.exec l

/-! ## The poll timeout -/

def uvLoopAlive (l : UvLoop ι γ) : Bool :=
  l.activeHandles > 0 || l.activeReqs > 0 || !l.endgameHandles.isEmpty

def uvBackendTimeout (l : UvLoop ι γ) : ℕ :=
  if l.stopFlag then 0
  else if ¬ uvLoopAlive l then 0
  else if l.pendingReqs ≠ [] then 0
  else if l.watcherHandles .idle ≠ [] then 0
  else uvNextTimeout l

/-! ## Endgames -/

/-- `uv__handle_close`; `ops` are the operations of the close callback. -/
def uvHandleClose (l : UvLoop ι γ) (h : Handle ι) (ops : List (LoopOp ι γ)) :
    Except Fault (UvLoop ι γ) :=
  let l := { l with activeHandles := l.activeHandles - 1 }
  let l := l.setFlags h { l.flags h with closed := true }
  match l.closeCb h with
  | none => .ok l
  | some _ => runOps l ops

/-- A closing stream also waits for its requests. -/
def endgameReady (l : UvLoop ι γ) : Handle ι → Bool
  | .stream s => (l.flags (.stream s)).closing && l.reqsPending s == 0
  | .timer t => (l.flags (.timer t)).closing
  | .watcher k w => (l.flags (.watcher k w)).closing

/-- `uv_timer_endgame`, `uv_loop_watcher_endgame` and the part of `uv_tcp_endgame` that
the loop sees. -/
def uvEndgame (l : UvLoop ι γ) (h : Handle ι) (ops : List (LoopOp ι γ)) :
    Except Fault (UvLoop ι γ) :=
  if endgameReady l h then
    if (l.flags h).closed then .error .assertion else uvHandleClose l h ops
  else .ok l

/-! ## The loop -/

/-- Where the loop thread is. At `poll` the timeout has been computed and the poll is
next. -/
inductive Phase where
  | user : Phase
  | head : Phase
  | timers : Phase
  | reqs : Phase
  | watchers : WatcherKind → Phase
  | poll : Phase
  | endgames : Phase
  | onceTimers : Phase
  | tail : Phase

/-- The loop, with the local variables of `uv_run` and `uv_process_reqs`. -/
structure RunState (ι γ : Type*) where
  loop : UvLoop ι γ
  phase : Phase
  mode : RunMode
  r : Bool
  ranPending : Bool
  timeout : ℕ
  reqsRun : List ι

/-- What the next step needs from outside: the operations of the callback it calls, the
time on the clock, the requests the poll dequeues, the mode of a call of `uv_run`, and
whether the program outside of it goes on. -/
structure Input (ι γ : Type*) where
  ops : List (LoopOp ι γ)
  clock : UInt64
  completed : List ι
  mode : RunMode
  more : Bool

/-- The due timer is stopped and started again. -/
def timerFire (l : UvLoop ι γ) (t : ι) : Except Fault (UvLoop ι γ) := do
  let l ← uvTimerStop l t
  let (_, l) ← uvTimerAgain l t
  match (l.timer t).timerCb with
  | none => .error .crash
  | some _ => .ok l

namespace RunState

variable (s : RunState ι γ)

def call (ops : List (LoopOp ι γ)) (l : UvLoop ι γ) : Except Fault (RunState ι γ) := do
  let l ← runOps l ops
  .ok { s with loop := l }

/-- `uv_*_invoke` begins. -/
def startWatchers (k : WatcherKind) : RunState ι γ :=
  { s with phase := .watchers k
           loop := s.loop.setNext k (s.loop.watcherHandles k).head? }

/-- `uv_process_reqs` begins. -/
def startReqs : RunState ι γ :=
  if s.loop.pendingReqs = [] then { s with ranPending := false }.startWatchers .idle
  else { s with phase := .reqs
                ranPending := true
                reqsRun := s.loop.pendingReqs
                loop := { s.loop with pendingReqs := [] } }

/-- `if (mode == UV_RUN_ONCE && !ran_pending || mode == UV_RUN_DEFAULT)` -/
def computeTimeout : RunState ι γ :=
  { s with phase := .poll
           timeout := if (s.mode = .once ∧ s.ranPending = false) ∨ s.mode = .default
             then uvBackendTimeout s.loop else 0 }

/-- What comes after the watchers of a kind. -/
def afterWatchers : WatcherKind → RunState ι γ
  | .idle => s.startWatchers .prepare
  | .prepare => s.computeTimeout
  | .check => { s with phase := .endgames }

/-- One iteration of `uv_process_timers`; `next` when no timer is due. -/
def timersStep (ops : List (LoopOp ι γ)) (next : RunState ι γ) : Except Fault (RunState ι γ) :=
  match rbMin s.loop.timers with
  | none => .ok next
  | some t =>
    if (s.loop.timer t).due ≤ s.loop.time then do
      let l ← timerFire s.loop t
      s.call ops l
    else .ok next

end RunState

/-- The next step of a thread that runs the loop. -/
def runStep (s : RunState ι γ) (i : Input ι γ) : Except Fault (RunState ι γ) :=
  match s.phase with
  | .user =>
    if i.more then s.call i.ops s.loop
    else if uvLoopAlive s.loop then .ok { s with phase := .head, mode := i.mode, r := true }
    else do
      let l ← uvUpdateTime s.loop i.clock
      .ok { s with phase := .head, mode := i.mode, r := false, loop := l }
  | .head =>
    if s.r ∧ s.loop.stopFlag = false then do
      let l ← uvUpdateTime s.loop i.clock
      .ok { s with phase := .timers, loop := l }
    else .ok { s with phase := .user, loop := { s.loop with stopFlag := false } }
  | .timers => s.timersStep i.ops s.startReqs
  | .reqs =>
    match s.reqsRun with
    | [] => .ok (s.startWatchers .idle)
    | h :: rest => do
      let l ← runOps s.loop i.ops
      let l ← decreasePendingReqCount l h
      .ok { s with loop := l, reqsRun := rest }
  | .watchers k =>
    match s.loop.nextWatcher k with
    | none => .ok (s.afterWatchers k)
    | some w => s.call i.ops (s.loop.setNext k (watcherNext w (s.loop.watcherHandles k)))
  | .poll => do
    let l ← uvUpdateTime s.loop i.clock
    .ok ({ s with loop := { l with pendingReqs := l.pendingReqs ++ i.completed } }.startWatchers
      .check)
  | .endgames =>
    match s.loop.endgameHandles with
    | [] => .ok { s with phase := if s.mode = .once then .onceTimers else .tail }
    | h :: rest => do
      let l := { s.loop with endgameHandles := rest }
      let l ← uvEndgame (l.setFlags h { l.flags h with endgameQueued := false }) h i.ops
      .ok { s with loop := l }
  | .onceTimers => s.timersStep i.ops { s with phase := .tail }
  | .tail =>
    let alive := uvLoopAlive s.loop
    if s.mode = .default then .ok { s with phase := .head, r := alive }
    else .ok { s with phase := .user, r := alive, loop := { s.loop with stopFlag := false } }

end LibuvWorks.Win
