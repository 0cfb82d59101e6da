import LibuvWorks.Win.Loop
import Mathlib.Algebra.Group.Int.Defs
import Mathlib.Algebra.Group.Nat.Defs

/-!
# `win/loop-watcher.c`

Prepare, check and idle handles. The handles of a kind are a list linked through
`*_next`; `nextWatcher` is the iterator of `uv_*_invoke`, which a stop moves on.
-/
namespace LibuvWorks.Win

variable {ι γ : Type*} [DecidableEq ι]

def UvLoop.setWatchers (l : UvLoop ι γ) (k : WatcherKind) (q : List ι) : UvLoop ι γ :=
  { l with watcherHandles := Function.update l.watcherHandles k q }

def UvLoop.setNext (l : UvLoop ι γ) (k : WatcherKind) (w : Option ι) : UvLoop ι γ :=
  { l with nextWatcher := Function.update l.nextWatcher k w }

/-- `handle->*_next` of a member of the list. -/
def watcherNext (w : ι) : List ι → Option ι
  | [] => none
  | x :: xs => if x = w then xs.head? else watcherNext w xs

def uvWatcherStart (l : UvLoop ι γ) (k : WatcherKind) (w : ι) (cb : Option γ) :
    Except Fault (ℤ × UvLoop ι γ) :=
  if uvIsActive l (.watcher k w) then .ok (0, l)
  else if cb = none then .ok (einval, l)
  else do
    let l := l.setWatchers k (w :: l.watcherHandles k)
    let l := { l with watcherCb := Function.update l.watcherCb k
                        (Function.update (l.watcherCb k) w cb) }
    let l ← uvHandleStart l (.watcher k w)
    .ok (0, l)

/-- The watcher leaves the list of its kind, and the iterator when it is there. -/
def unlinkWatcher (l : UvLoop ι γ) (k : WatcherKind) (w : ι) : UvLoop ι γ :=
  let next := watcherNext w (l.watcherHandles k)
  let l := if l.nextWatcher k = some w then l.setNext k next else l
  l.setWatchers k ((l.watcherHandles k).erase w)

/-- `uv_*_stop`; it returns 0 in every case. -/
def uvWatcherStop (l : UvLoop ι γ) (k : WatcherKind) (w : ι) : Except Fault (UvLoop ι γ) :=
  if uvIsActive l (.watcher k w) then uvHandleStop (unlinkWatcher l k w) (.watcher k w)
  else .ok l

def uvPrepareStart (l : UvLoop ι γ) := uvWatcherStart l .prepare
def uvPrepareStop (l : UvLoop ι γ) := uvWatcherStop l .prepare
def uvCheckStart (l : UvLoop ι γ) := uvWatcherStart l .check
def uvCheckStop (l : UvLoop ι γ) := uvWatcherStop l .check
def uvIdleStart (l : UvLoop ι γ) := uvWatcherStart l .idle
def uvIdleStop (l : UvLoop ι γ) := uvWatcherStop l .idle

end LibuvWorks.Win

/-!
## `win/timer.c`

The timers of a loop are kept in a red-black tree ordered by due time and then by
the number they were started with.
-/
namespace LibuvWorks.Win

variable {ι γ : Type*} [DecidableEq ι]

def uvTimerCompare (timer : ι → UvTimer γ) (a b : ι) : Ordering :=
  if (timer a).due < (timer b).due then .lt
  else if (timer a).due > (timer b).due then .gt
  else if (timer a).startId < (timer b).startId then .lt
  else if (timer a).startId > (timer b).startId then .gt
  else .eq

/-- `RB_INSERT`, `none` when the tree holds an element that compares as equal. -/
def rbInsert (compare : ι → ι → Ordering) (elm : ι) : List ι → Option (List ι)
  | [] => some [elm]
  | x :: xs =>
    match compare elm x with
    | .lt => some (elm :: x :: xs)
    | .gt => (rbInsert compare elm xs).map (x :: ·)
    | .eq => none

def rbRemove (elm : ι) (xs : List ι) : List ι := xs.erase elm

def rbMin (xs : List ι) : Option ι := xs.head?

/-- `uv_update_time` to the time `t` that the clock shows. -/
def uvUpdateTime (l : UvLoop ι γ) (t : UInt64) : Except Fault (UvLoop ι γ) :=
  if t ≥ l.time then .ok { l with time := t } else .error .assertion

/-- `(uint64_t) -1` -/
def uint64Max : UInt64 := -1

def getClampedDueTime (loopTime timeout : UInt64) : UInt64 :=
  if loopTime + timeout < timeout then uint64Max else loopTime + timeout

/-- `uv_timer_stop`; it returns 0 in every case. -/
def uvTimerStop (l : UvLoop ι γ) (t : ι) : Except Fault (UvLoop ι γ) :=
  if uvIsActive l (.timer t) then
    uvHandleStop { l with timers := rbRemove t l.timers } (.timer t)
  else .ok l

/-- `if (uv__is_active(handle)) uv_timer_stop(handle);` -/
def timerStopIfActive (l : UvLoop ι γ) (t : ι) : Except Fault (UvLoop ι γ) :=
  if uvIsActive l (.timer t) then uvTimerStop l t else .ok l

/-- `handle->start_id = handle->loop->timer_counter++;` -/
def timerNumber (l : UvLoop ι γ) (t : ι) : UvLoop ι γ :=
  { l.setTimer t { l.timer t with startId := l.timerCounter } with
    timerCounter := l.timerCounter + 1 }

/-- `old = RB_INSERT(...); assert(old == NULL);` -/
def timerInsert (l : UvLoop ι γ) (t : ι) : Except Fault (UvLoop ι γ) :=
  match rbInsert (uvTimerCompare l.timer) t l.timers with
  | none => .error .assertion
  | some timers => .ok { l with timers := timers }

def uvTimerStart (l : UvLoop ι γ) (t : ι) (cb : Option γ) (timeout repeatMs : UInt64) :
    Except Fault (ℤ × UvLoop ι γ) :=
  if cb = none then .ok (einval, l)
  else do
    let l ← timerStopIfActive l t
    let l := l.setTimer t { l.timer t with timerCb := cb,
                                           due := getClampedDueTime l.time timeout,
                                           repeatMs := repeatMs }
    let l ← uvHandleStart l (.timer t)
    let l ← timerInsert (timerNumber l t) t
    .ok (0, l)

def uvTimerAgain (l : UvLoop ι γ) (t : ι) : Except Fault (ℤ × UvLoop ι γ) :=
  if (l.timer t).timerCb = none then .ok (einval, l)
  else if (l.timer t).repeatMs ≠ 0 then do
    let l ← uvTimerStop l t
    let (_, l) ← uvTimerStart l t (l.timer t).timerCb (l.timer t).repeatMs (l.timer t).repeatMs
    .ok (0, l)
  else .ok (0, l)

def uintMax : ℕ := 2 ^ 32 - 1

def infinite : ℕ := 0xFFFFFFFF

/-- The value of an `int64_t` with the bits of `x`. -/
def toInt64 (x : UInt64) : ℤ := if x.toNat < 2 ^ 63 then x.toNat else x.toNat - 2 ^ 64

/-- `uv__next_timeout`, a `DWORD`. -/
def uvNextTimeout (l : UvLoop ι γ) : ℕ :=
  match rbMin l.timers with
  | some timer =>
    let delta := toInt64 ((l.timer timer).due - l.time)
    if delta ≥ (uintMax - 1 : ℕ) then uintMax - 1
    else if delta < 0 then 0
    else delta.toNat
  | none => infinite

end LibuvWorks.Win

/-!
## Closing handles: `uv_close` of `win/handle.c`
-/
namespace LibuvWorks.Win

variable {ι γ : Type*} [DecidableEq ι]

def closeNow (l : UvLoop ι γ) (h : Handle ι) : Except Fault (UvLoop ι γ) := do
  let l ← uvHandleClosing l h
  .ok (uvWantEndgame l h)

/-- The part of `uv_tcp_close` that the loop sees: the endgame waits for the requests. -/
def uvStreamClose (l : UvLoop ι γ) (s : ι) : Except Fault (UvLoop ι γ) := do
  let l ← uvHandleClosing l (.stream s)
  .ok (if l.reqsPending s = 0 then uvWantEndgame l (.stream s) else l)

/-- The `switch (handle->type)` of `uv_close`. -/
def uvTypeClose (l : UvLoop ι γ) : Handle ι → Except Fault (UvLoop ι γ)
  | .stream s => uvStreamClose l s
  | .timer t => do closeNow (← uvTimerStop l t) (.timer t)
  | .watcher k w => do closeNow (← uvWatcherStop l k w) (.watcher k w)

def uvClose (l : UvLoop ι γ) (h : Handle ι) (closeCb : Option γ) : Except Fault (UvLoop ι γ) :=
  if (l.flags h).closing then .error .assertion
  else uvTypeClose { l with closeCb := Function.update l.closeCb h closeCb } h

end LibuvWorks.Win
