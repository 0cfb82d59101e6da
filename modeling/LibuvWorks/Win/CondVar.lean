import LibuvWorks.Lib.Threads

/-!
# Condition variables without the Windows API for them: `win/thread.c`

The threads take turns at every `EnterCriticalSection`, `LeaveCriticalSection`, `SetEvent`,
`ResetEvent`, wait, and lock and unlock of the mutex. A thread that takes no turn in
`WaitForMultipleObjects` is blocked there, or has not called it yet.
-/
namespace LibuvWorks.Win

open Function (update)

/-- What `WaitForMultipleObjects` returns. -/
inductive WaitResult where
  /-- `WAIT_OBJECT_0`, the signal event -/
  | signalEvent : WaitResult
  /-- `WAIT_OBJECT_0 + 1`, the broadcast event -/
  | broadcastEvent : WaitResult
  /-- `WAIT_TIMEOUT` -/
  | timeout : WaitResult
  deriving DecidableEq

/-- Where a thread is in `uv_cond_wait_helper`, or in `uv_cond_fallback_signal` and
`uv_cond_fallback_broadcast`, which differ in the event that they set. -/
inductive CondPc where
  | idle : CondPc
  | enter1 : CondPc
  /-- `cond->fallback.waiters_count++` -/
  | count1 : CondPc
  | leave1 : CondPc
  /-- `uv_mutex_unlock(mutex)` -/
  | unlockMutex : CondPc
  /-- `WaitForMultipleObjects(2, handles, FALSE, dwMilliseconds)` -/
  | wait : CondPc
  | enter2 : CondPc
  /-- `cond->fallback.waiters_count--` -/
  | count2 : CondPc
  | leave2 (lastWaiter : Bool) : CondPc
  /-- `ResetEvent(cond->fallback.broadcast_event)` -/
  | reset : CondPc
  /-- `uv_mutex_lock(mutex)` -/
  | lockMutex : CondPc
  | enter3 (broadcast : Bool) : CondPc
  /-- `have_waiters = cond->fallback.waiters_count > 0` -/
  | look (broadcast : Bool) : CondPc
  | leave3 (broadcast haveWaiters : Bool) : CondPc
  | setEvent (broadcast : Bool) : CondPc
  deriving DecidableEq

/-- A thread: where it is, whether it waits no longer than some time, how its last wait ended, and
for each wait that has returned whether that was with `UV_ETIMEDOUT`. No turn depends on the rest:
how often each event had been set when its last wait began. -/
structure CondThread where
  pc : CondPc
  timed : Bool
  result : WaitResult
  returns : List Bool
  signalsBefore : ℕ
  broadcastsBefore : ℕ

/-- `uv_cond_t` with its lock, its events, the mutex that the waiters hold, and the threads. No
turn depends on the rest: how often each event has been set, how often the signal event had been
before it was last set while it was not, and the waits that have ended. -/
structure CondVar (τ : Type*) where
  waitersCount : ℕ
  waitersCountLock : Option τ
  signalEvent : Bool
  broadcastEvent : Bool
  mutex : Option τ
  thread : τ → CondThread
  signals : ℕ
  broadcasts : ℕ
  setAt : ℕ
  ended : List (ℕ × ℕ)

namespace CondVar

/-- `uv_cond_fallback_init`, before any call -/
def uvCondFallbackInit (τ : Type*) : CondVar τ :=
  ⟨0, none, false, false, none, fun _ => ⟨.idle, false, .timeout, [], 0, 0⟩, 0, 0, 0, []⟩

variable {τ : Type*} [DecidableEq τ] (s : CondVar τ) (i : τ)

def goto (pc : CondPc) : CondVar τ :=
  { s with thread := update s.thread i { s.thread i with pc } }

/-- `EnterCriticalSection(&cond->fallback.waiters_count_lock)` -/
def enter (pc : CondPc) : Option (CondVar τ) :=
  if s.waitersCountLock = none then some { s.goto i pc with waitersCountLock := some i } else none

/-- `LeaveCriticalSection(&cond->fallback.waiters_count_lock)` -/
def leave (pc : CondPc) : CondVar τ := { s.goto i pc with waitersCountLock := none }

/-- The thread is counted as a waiter. -/
def register : CondVar τ :=
  let x := s.thread i
  { s with
    waitersCount := s.waitersCount + 1
    thread := update s.thread i { x with
      pc := .leave1, signalsBefore := s.signals, broadcastsBefore := s.broadcasts } }

/-- A wait ends. -/
def wake (result : WaitResult) : CondVar τ :=
  let x := s.thread i
  { s with
    thread := update s.thread i { x with pc := .enter2, result }
    ended := s.ended ++ [(x.signalsBefore, s.signals)] }

/-- `WaitForMultipleObjects` when an event is set: it takes the first that is, and resets the signal
event. -/
def waitForMultipleObjects : Option (CondVar τ) :=
  if s.signalEvent then some { s.wake i .signalEvent with signalEvent := false }
  else if s.broadcastEvent then some (s.wake i .broadcastEvent)
  else none

/-- The thread is no longer counted. -/
def deregister : CondVar τ :=
  let waitersCount := s.waitersCount - 1
  let lastWaiter := (s.thread i).result = .broadcastEvent ∧ waitersCount = 0
  { s.goto i (.leave2 (decide lastWaiter)) with waitersCount }

/-- `uv_cond_wait_helper` takes the mutex and returns 0 or `UV_ETIMEDOUT`. -/
def finish : CondVar τ :=
  let x := s.thread i
  let returns := x.returns ++ [decide (x.result = .timeout)]
  { s with mutex := some i, thread := update s.thread i { x with pc := .idle, returns } }

/-- `SetEvent(cond->fallback.signal_event)` -/
def setSignalEvent : CondVar τ :=
  { s.goto i .idle with
    signalEvent := true
    setAt := if s.signalEvent then s.setAt else s.signals
    signals := s.signals + 1 }

/-- `SetEvent(cond->fallback.broadcast_event)` -/
def setBroadcastEvent : CondVar τ :=
  { s.goto i .idle with broadcastEvent := true, broadcasts := s.broadcasts + 1 }

/-- A turn of a thread; `none` where it waits. -/
def turn : Option (CondVar τ) :=
  match (s.thread i).pc with
  | .idle => none
  | .enter1 => s.enter i .count1
  | .count1 => some (s.register i)
  | .leave1 => some (s.leave i .unlockMutex)
  | .unlockMutex => some { s.goto i .wait with mutex := none }
  | .wait => s.waitForMultipleObjects i
  | .enter2 => s.enter i .count2
  | .count2 => some (s.deregister i)
  | .leave2 lastWaiter => some (s.leave i (if lastWaiter then .reset else .lockMutex))
  | .reset => some { s.goto i .lockMutex with broadcastEvent := false }
  | .lockMutex => if s.mutex = none then some (s.finish i) else none
  | .enter3 broadcast => s.enter i (.look broadcast)
  | .look broadcast => some (s.goto i (.leave3 broadcast (decide (0 < s.waitersCount))))
  | .leave3 broadcast haveWaiters =>
    some (s.leave i (if haveWaiters then .setEvent broadcast else .idle))
  | .setEvent broadcast => some (if broadcast then s.setBroadcastEvent i else s.setSignalEvent i)

inductive Event (τ : Type*) where
  /-- `uv_mutex_lock` and `uv_mutex_unlock` outside of the condition variable -/
  | lock (i : τ) : Event τ
  | unlock (i : τ) : Event τ
  /-- `uv_cond_wait` and `uv_cond_timedwait` -/
  | wait (i : τ) (timed : Bool) : Event τ
  /-- `uv_cond_signal` -/
  | signal (i : τ) : Event τ
  /-- `uv_cond_broadcast` -/
  | broadcast (i : τ) : Event τ
  | turn (i : τ) : Event τ
  /-- `dwMilliseconds` have passed, and neither event is set. -/
  | timeout (i : τ) : Event τ

/-- A call needs the thread to be outside, `uv_cond_wait` and `uv_mutex_unlock` also need it to hold
the mutex. -/
def Enabled : Event τ → Prop
  | .lock i => (s.thread i).pc = .idle ∧ s.mutex = none
  | .unlock i | .wait i _ => (s.thread i).pc = .idle ∧ s.mutex = some i
  | .signal i | .broadcast i => (s.thread i).pc = .idle
  | .turn _ => True
  | .timeout i => (s.thread i).pc = .wait ∧ (s.thread i).timed = true ∧
      s.signalEvent = false ∧ s.broadcastEvent = false

instance : DecidablePred s.Enabled := fun e => by
  cases e <;> unfold Enabled <;> infer_instance

def next : Event τ → Option (CondVar τ)
  | .lock i => some { s with mutex := some i }
  | .unlock _ => some { s with mutex := none }
  | .wait i timed =>
    some { s with thread := update s.thread i { s.thread i with pc := .enter1, timed } }
  | .signal i => some (s.goto i (.enter3 false))
  | .broadcast i => some (s.goto i (.enter3 true))
  | .turn i => s.turn i
  | .timeout i => some (s.wake i .timeout)

def step (e : Event τ) : Option (CondVar τ) := if s.Enabled e then s.next e else none

def Step (s : CondVar τ) (e : Event τ) (t : CondVar τ) : Prop := s.step e = some t

end CondVar

end LibuvWorks.Win
