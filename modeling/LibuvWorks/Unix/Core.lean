import LibuvWorks.Unix.Loop

/-!
# `unix/loop-watcher.c`

Prepare, check and idle handles. The queue of a kind is a list of watchers, in
the order their callbacks are called.
-/
namespace LibuvWorks.Unix

variable {ι γ : Type*} [DecidableEq ι]

def UvLoop.setWatchers (l : UvLoop ι γ) (k : WatcherKind) (q : List ι) : UvLoop ι γ :=
  { l with watcherHandles := Function.update l.watcherHandles k q }

def UvLoop.setWatcherRun (l : UvLoop ι γ) (k : WatcherKind) (q : List ι) : UvLoop ι γ :=
  { l with watcherRun := Function.update l.watcherRun k q }

/-- `QUEUE_REMOVE` on the queue link of a watcher. -/
def UvLoop.unlinkWatcher (l : UvLoop ι γ) (k : WatcherKind) (w : ι) : UvLoop ι γ :=
  (l.setWatchers k ((l.watcherHandles k).erase w)).setWatcherRun k ((l.watcherRun k).erase w)

def uvWatcherStart (l : UvLoop ι γ) (k : WatcherKind) (w : ι) (cb : Option γ) : ℤ × UvLoop ι γ :=
  if uvIsActive l (.watcher k w) then (0, l)
  else if cb = none then (einval, l)
  else
    let l := l.setWatchers k (w :: l.watcherHandles k)
    let l := { l with watcherCb := Function.update l.watcherCb k
                        (Function.update (l.watcherCb k) w cb) }
    (0, uvHandleStart l (.watcher k w))

/-- `uv_*_stop`; it returns 0 in every case. -/
def uvWatcherStop (l : UvLoop ι γ) (k : WatcherKind) (w : ι) : UvLoop ι γ :=
  if uvIsActive l (.watcher k w) = false then l
  else uvHandleStop (l.unlinkWatcher k w) (.watcher k w)

def uvPrepareStart (l : UvLoop ι γ) := uvWatcherStart l .prepare
def uvPrepareStop (l : UvLoop ι γ) := uvWatcherStop l .prepare
def uvCheckStart (l : UvLoop ι γ) := uvWatcherStart l .check
def uvCheckStop (l : UvLoop ι γ) := uvWatcherStop l .check
def uvIdleStart (l : UvLoop ι γ) := uvWatcherStart l .idle
def uvIdleStop (l : UvLoop ι γ) := uvWatcherStop l .idle

end LibuvWorks.Unix

/-!
## `unix/timer.c`

The timers of a loop are kept in its heap, ordered by due time and then by the
number they were started with.
-/
namespace LibuvWorks.Unix

variable {ι γ : Type*} [DecidableEq ι]

def timerLessThan (timer : ι → UvTimer γ) (a b : ι) : Bool :=
  if (timer a).timeout < (timer b).timeout then true
  else if (timer b).timeout < (timer a).timeout then false
  else if (timer a).startId < (timer b).startId then true
  else if (timer b).startId < (timer a).startId then false
  else false

/-- `(uint64_t) -1` -/
def uint64Max : UInt64 := -1

/-- `loop->time + timeout`, or the largest value when the sum overflows. -/
def clampedTimeout (time timeout : UInt64) : UInt64 :=
  if time + timeout < timeout then uint64Max else time + timeout

/-- The timer enters the heap and becomes active. -/
def timerInsert (l : UvLoop ι γ) (t : ι) : Except Fault (UvLoop ι γ) :=
  match heapInsert (timerLessThan l.timer) l.timerHeap t with
  | none => .error .crash
  | some heap => .ok (uvHandleStart { l with timerHeap := heap } (.timer t))

/-- The timer leaves the heap and becomes inactive. -/
def timerRemove (l : UvLoop ι γ) (t : ι) : Except Fault (UvLoop ι γ) :=
  match heapRemove (timerLessThan l.timer) l.timerHeap t with
  | none => .error .crash
  | some heap => .ok (uvHandleStop { l with timerHeap := heap } (.timer t))

/-- `uv_timer_stop`; it returns 0 in every case. -/
def uvTimerStop (l : UvLoop ι γ) (t : ι) : Except Fault (UvLoop ι γ) :=
  if uvIsActive l (.timer t) then timerRemove l t else .ok l

/-- `if (uv__is_active(handle)) uv_timer_stop(handle);` -/
def timerStopIfActive (l : UvLoop ι γ) (t : ι) : Except Fault (UvLoop ι γ) :=
  if uvIsActive l (.timer t) then uvTimerStop l t else .ok l

def uvTimerStart (l : UvLoop ι γ) (t : ι) (cb : Option γ) (timeout repeatMs : UInt64) :
    Except Fault (ℤ × UvLoop ι γ) :=
  if cb = none then .ok (einval, l)
  else do
    let l ← timerStopIfActive l t
    let l := l.setTimer t ⟨cb, clampedTimeout l.time timeout, repeatMs, l.timerCounter⟩
    let l ← timerInsert { l with timerCounter := l.timerCounter + 1 } t
    .ok (0, l)

def uvTimerAgain (l : UvLoop ι γ) (t : ι) : Except Fault (ℤ × UvLoop ι γ) :=
  if (l.timer t).timerCb = none then .ok (einval, l)
  else if (l.timer t).repeatMs ≠ 0 then do
    let l ← uvTimerStop l t
    let (_, l) ← uvTimerStart l t (l.timer t).timerCb (l.timer t).repeatMs (l.timer t).repeatMs
    .ok (0, l)
  else .ok (0, l)

def intMax : ℕ := 2 ^ 31 - 1

/-- `uv__next_timeout`; `heap_min` is a member's address or `NULL`. -/
def uvNextTimeout (l : UvLoop ι γ) : ℤ :=
  match heapMin l.timerHeap with
  | none => -1
  | some t =>
    if (l.timer t).timeout ≤ l.time then 0
    else
      let diff := (l.timer t).timeout - l.time
      if diff.toNat > intMax then intMax else diff.toNat

end LibuvWorks.Unix

/-!
## Closing handles: `uv_close` of `unix/core.c`
-/
namespace LibuvWorks.Unix

variable {ι γ : Type*} [DecidableEq ι]

/-- `uv__io_feed`: a watcher is queued at most once. -/
def uvIoFeed (l : UvLoop ι γ) (s : ι) : UvLoop ι γ :=
  if s ∈ l.pendingQueue ∨ s ∈ l.pendingRun then l
  else { l with pendingQueue := l.pendingQueue ++ [s] }

/-- The part of `uv__stream_close` that the loop sees: the watcher leaves the pending
queue and the handle is stopped. -/
def uvStreamClose (l : UvLoop ι γ) (s : ι) : UvLoop ι γ :=
  uvHandleStop { l with pendingQueue := l.pendingQueue.erase s,
                        pendingRun := l.pendingRun.erase s } (.stream s)

def uvTimerClose (l : UvLoop ι γ) (t : ι) : Except Fault (UvLoop ι γ) := uvTimerStop l t

def uvMakeClosePending (l : UvLoop ι γ) (h : Handle ι) : Except Fault (UvLoop ι γ) :=
  if (l.flags h).closing = true ∧ (l.flags h).closed = false then
    .ok { l with closingHandles := h :: l.closingHandles }
  else .error .assertion

/-- The `switch (handle->type)` of `uv_close`. -/
def uvTypeClose (l : UvLoop ι γ) : Handle ι → Except Fault (UvLoop ι γ)
  | .watcher k w => .ok (uvWatcherStop l k w)
  | .timer t => uvTimerClose l t
  | .stream s => .ok (uvStreamClose l s)

/-- The handle's flag and callback of a `uv_close` that was called. -/
def UvLoop.markClosing (l : UvLoop ι γ) (h : Handle ι) (closeCb : Option γ) : UvLoop ι γ :=
  { l.setFlags h { l.flags h with closing := true } with
    closeCb := Function.update l.closeCb h closeCb }

def uvClose (l : UvLoop ι γ) (h : Handle ι) (closeCb : Option γ) : Except Fault (UvLoop ι γ) :=
  if (l.flags h).closing ∨ (l.flags h).closed then .error .assertion
  else do
    let l ← uvTypeClose (l.markClosing h closeCb) h
    uvMakeClosePending l h

end LibuvWorks.Unix
