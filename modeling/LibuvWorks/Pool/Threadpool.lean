import LibuvWorks.Lib.Transition
import Mathlib.Data.Fintype.Basic

/-!
# The thread pool of `threadpool.c`

The workers, the threads of the loops and the thread that runs `cleanup` take turns at
every lock, unlock, wait, signal and critical section. A thread is at a program point; a
`Pool` is the shared memory, the mutexes and the program points, with the history of
every work item.
-/
namespace LibuvWorks.Threadpool

/-- `struct uv__work`: one submission. -/
structure Work (Λ : Type*) where
  loop : Λ
  id : ℕ
  deriving DecidableEq

/-- What `w->work` points to. -/
inductive WorkFn where
  | submitted : WorkFn
  | null : WorkFn
  | cancelled : WorkFn
  deriving DecidableEq

/-- A link of `wq`. -/
inductive Entry (Λ : Type*) where
  | item : Work Λ → Entry Λ
  | exitMessage : Entry Λ
  deriving DecidableEq

/-- Where a thread is in `worker`. -/
inductive WorkerPc (Λ : Type*) where
  /-- `uv_mutex_lock(&mutex)` -/
  | lock : WorkerPc Λ
  /-- `while (QUEUE_EMPTY(&wq))`, and what follows up to a signal, an unlock or a wait. -/
  | test : WorkerPc Λ
  /-- In `uv_cond_wait`, before a signal. -/
  | blocked : WorkerPc Λ
  /-- In `uv_cond_wait`, about to take the mutex again. -/
  | signalled : WorkerPc Λ
  /-- `uv_cond_signal(&cond)`, for `q == &exit_message`. -/
  | signalNext : WorkerPc Λ
  /-- `uv_mutex_unlock(&mutex)`, for `q == &exit_message`. -/
  | leave : WorkerPc Λ
  | exited : WorkerPc Λ
  /-- `uv_mutex_unlock(&mutex)` with a work item. -/
  | unlock : Work Λ → WorkerPc Λ
  /-- `w->work(w)` -/
  | run : Work Λ → WorkerPc Λ
  | lockLoop : Work Λ → WorkerPc Λ
  /-- `w->work = NULL` and `QUEUE_INSERT_TAIL(&w->loop->wq, &w->wq)` -/
  | insert : Work Λ → WorkerPc Λ
  | send : Work Λ → WorkerPc Λ
  | unlockLoop : Work Λ → WorkerPc Λ
  /-- `abort()` of `uv__cancelled`, or a call through `NULL`. -/
  | aborted : WorkerPc Λ
  deriving DecidableEq

/-- Where a thread is in `post`. -/
inductive PostPc where
  | lock : PostPc
  | insert : PostPc
  | signal : PostPc
  | unlock : PostPc
  deriving DecidableEq

/-- Where a thread is in `uv__work_cancel`; after the test with the value of `cancelled`. -/
inductive CancelPc where
  | lock : CancelPc
  | lockLoop : CancelPc
  | test : CancelPc
  | unlockLoop : Bool → CancelPc
  | unlock : Bool → CancelPc
  /-- `w->work = uv__cancelled` -/
  | mark : CancelPc
  | relock : CancelPc
  | insert : CancelPc
  | send : CancelPc
  | finish : CancelPc
  deriving DecidableEq

/-- Where the thread of a loop is. At `user` it runs code of the program, in a callback or
not, or drains the queue of `uv__work_done`. -/
inductive LoopPc (Λ : Type*) where
  | user : LoopPc Λ
  | post : Work Λ → PostPc → LoopPc Λ
  | cancel : Work Λ → CancelPc → LoopPc Λ
  | doneLock : LoopPc Λ
  | doneMove : LoopPc Λ
  | doneUnlock : LoopPc Λ
  deriving DecidableEq

/-- Where a thread is in `cleanup`. -/
inductive CleanupPc where
  | running : CleanupPc
  | post : PostPc → CleanupPc
  /-- `uv_thread_join(threads + i)` -/
  | join : ℕ → CleanupPc
  deriving DecidableEq

inductive Tid (n : ℕ) (Λ : Type*) where
  | worker : Fin n → Tid n Λ
  | loop : Λ → Tid n Λ
  | cleanup : Tid n Λ

def ecanceled : ℤ := -125

def ebusy : ℤ := -16

/-- The shared memory and the threads; `submitted`, `ran`, `returned` and `done` are the
history of the work items. -/
structure Pool (n : ℕ) (Λ : Type*) where
  mutex : Option (Tid n Λ)
  idleThreads : ℕ
  wq : List (Entry Λ)
  work : Work Λ → WorkFn
  /-- `QUEUE_EMPTY(&w->wq)` -/
  linkEmpty : Work Λ → Bool
  wqMutex : Λ → Option (Tid n Λ)
  loopWq : Λ → List (Work Λ)
  /-- A `uv_async_send` that `uv__work_done` has not been called for. -/
  wqAsync : Λ → Bool
  /-- The local queue of `uv__work_done`. -/
  localWq : Λ → List (Work Λ)
  worker : Fin n → WorkerPc Λ
  loop : Λ → LoopPc Λ
  cleanup : CleanupPc
  submitted : Work Λ → Bool
  /-- How often the work function was called. -/
  ran : Work Λ → ℕ
  /-- What the calls of `uv__work_cancel` returned. -/
  returned : Work Λ → List ℤ
  /-- The statuses `done` was called with. -/
  done : Work Λ → List ℤ

open Function (update)

variable {n : ℕ} {Λ : Type*} [DecidableEq Λ]

namespace Pool

variable (s : Pool n Λ)

def setWorker (i : Fin n) (pc : WorkerPc Λ) : Pool n Λ :=
  { s with worker := update s.worker i pc }

def setLoop (l : Λ) (pc : LoopPc Λ) : Pool n Λ := { s with loop := update s.loop l pc }

/-! ### Mutexes and the condition variable -/

/-- `uv_mutex_lock(&mutex)` -/
def lock (t : Tid n Λ) : Option (Pool n Λ) :=
  if s.mutex = none then some { s with mutex := some t } else none

/-- `uv_mutex_unlock(&mutex)` -/
def unlock : Pool n Λ := { s with mutex := none }

/-- `uv_mutex_lock(&loop->wq_mutex)` -/
def lockLoop (t : Tid n Λ) (l : Λ) : Option (Pool n Λ) :=
  if s.wqMutex l = none then some { s with wqMutex := update s.wqMutex l (some t) } else none

/-- `uv_mutex_unlock(&loop->wq_mutex)` -/
def unlockLoop (l : Λ) : Pool n Λ := { s with wqMutex := update s.wqMutex l none }

/-- `uv_cond_signal(&cond)` wakes a thread that is blocked, if there is one. -/
def condSignal : Option (Fin n) → Option (Pool n Λ)
  | some i => if s.worker i = .blocked then some (s.setWorker i .signalled) else none
  | none => if ∀ i, s.worker i ≠ .blocked then some s else none

/-! ### Queues -/

/-- `QUEUE_INSERT_TAIL(&wq, q)` -/
def insertTail : Entry Λ → Pool n Λ
  | .item w => { s with wq := s.wq ++ [.item w], linkEmpty := update s.linkEmpty w false }
  | .exitMessage => { s with wq := s.wq ++ [.exitMessage] }

/-- `QUEUE_INSERT_TAIL(&w->loop->wq, &w->wq)` -/
def insertLoopTail (w : Work Λ) : Pool n Λ :=
  { s with
    loopWq := update s.loopWq w.loop (s.loopWq w.loop ++ [w])
    linkEmpty := update s.linkEmpty w false }

/-- `QUEUE_REMOVE(&w->wq)` unlinks `w` from the queue it is in. -/
def remove (w : Work Λ) : Pool n Λ :=
  { s with
    wq := s.wq.erase (.item w)
    loopWq := update s.loopWq w.loop ((s.loopWq w.loop).erase w)
    localWq := update s.localWq w.loop ((s.localWq w.loop).erase w) }

/-! ### The functions of `threadpool.c` -/

/-- `worker`: the next program point of thread `i`. -/
def workerStep (i : Fin n) (woken : Option (Fin n)) : Option (Pool n Λ) :=
  match s.worker i with
  | .lock => (s.lock (.worker i)).map (·.setWorker i .test)
  | .test =>
    match s.wq with
    | [] => some ({ s with idleThreads := s.idleThreads + 1, mutex := none }.setWorker i .blocked)
    | .exitMessage :: _ => some (s.setWorker i .signalNext)
    | .item w :: wq =>
      some ({ s with wq := wq, linkEmpty := update s.linkEmpty w true }.setWorker i (.unlock w))
  | .blocked => none
  | .signalled =>
    (s.lock (.worker i)).map fun s =>
      { s with idleThreads := s.idleThreads - 1 }.setWorker i .test
  | .signalNext => (s.condSignal woken).map (·.setWorker i .leave)
  | .leave => some (s.unlock.setWorker i .exited)
  | .exited => none
  | .unlock w => some (s.unlock.setWorker i (.run w))
  | .run w =>
    if s.work w = .submitted then
      some ({ s with ran := update s.ran w (s.ran w + 1) }.setWorker i (.lockLoop w))
    else some (s.setWorker i .aborted)
  | .lockLoop w => (s.lockLoop (.worker i) w.loop).map (·.setWorker i (.insert w))
  | .insert w =>
    some (({ s with work := update s.work w .null }.insertLoopTail w).setWorker i (.send w))
  | .send w =>
    some ({ s with wqAsync := update s.wqAsync w.loop true }.setWorker i (.unlockLoop w))
  | .unlockLoop w => some ((s.unlockLoop w.loop).setWorker i .lock)
  | .aborted => none

/-- `post`: what thread `t` does at a program point, and the next one. -/
def post (t : Tid n Λ) (q : Entry Λ) (woken : Option (Fin n)) :
    PostPc → Option (Pool n Λ × Option PostPc)
  | .lock => (s.lock t).map fun s => (s, some .insert)
  | .insert => some (s.insertTail q, some (if s.idleThreads > 0 then .signal else .unlock))
  | .signal => (s.condSignal woken).map fun s => (s, some .unlock)
  | .unlock => some (s.unlock, none)

/-- `uv__work_submit`, up to the call of `post`. -/
def uvWorkSubmit (w : Work Λ) : Pool n Λ :=
  { s with
    work := update s.work w .submitted
    submitted := update s.submitted w true }.setLoop w.loop (.post w .lock)

/-- The value `uv__work_cancel` returned for `w`. -/
def returns (w : Work Λ) (err : ℤ) : Pool n Λ :=
  { s with returned := update s.returned w (s.returned w ++ [err]) }

/-- `!QUEUE_EMPTY(&w->wq) && w->work != NULL` -/
def cancellable (w : Work Λ) : Bool := !s.linkEmpty w && s.work w != .null

/-- `uv__work_cancel`, called by the thread of `w->loop`. -/
def uvWorkCancel (w : Work Λ) : CancelPc → Option (Pool n Λ)
  | .lock => (s.lock (.loop w.loop)).map (·.setLoop w.loop (.cancel w .lockLoop))
  | .lockLoop => (s.lockLoop (.loop w.loop) w.loop).map (·.setLoop w.loop (.cancel w .test))
  | .test =>
    if s.cancellable w then some ((s.remove w).setLoop w.loop (.cancel w (.unlockLoop true)))
    else some (s.setLoop w.loop (.cancel w (.unlockLoop false)))
  | .unlockLoop cancelled =>
    some ((s.unlockLoop w.loop).setLoop w.loop (.cancel w (.unlock cancelled)))
  | .unlock true => some (s.unlock.setLoop w.loop (.cancel w .mark))
  | .unlock false => some ((s.unlock.returns w ebusy).setLoop w.loop .user)
  | .mark =>
    some ({ s with work := update s.work w .cancelled }.setLoop w.loop (.cancel w .relock))
  | .relock => (s.lockLoop (.loop w.loop) w.loop).map (·.setLoop w.loop (.cancel w .insert))
  | .insert => some ((s.insertLoopTail w).setLoop w.loop (.cancel w .send))
  | .send =>
    some ({ s with wqAsync := update s.wqAsync w.loop true }.setLoop w.loop (.cancel w .finish))
  | .finish => some (((s.unlockLoop w.loop).returns w 0).setLoop w.loop .user)

/-- The thread of a loop: `post`, `uv__work_cancel` or `uv__work_done`, which is called
for `uv_async_send` once the queue of the last call is empty. -/
def loopStep (l : Λ) (woken : Option (Fin n)) : Option (Pool n Λ) :=
  match s.loop l with
  | .user =>
    match s.localWq l with
    | w :: ws =>
      some { s with
        localWq := update s.localWq l ws
        done := update s.done w (s.done w ++ [if s.work w = .cancelled then ecanceled else 0]) }
    | [] =>
      if s.wqAsync l then
        some ({ s with wqAsync := update s.wqAsync l false }.setLoop l .doneLock)
      else none
  | .post w pc =>
    (s.post (.loop l) (.item w) woken pc).map fun (s, next) =>
      s.setLoop l (next.elim .user (.post w))
  | .cancel w pc => s.uvWorkCancel w pc
  | .doneLock => (s.lockLoop (.loop l) l).map (·.setLoop l .doneMove)
  | .doneMove =>
    some ({ s with
      loopWq := update s.loopWq l []
      localWq := update s.localWq l (s.loopWq l) }.setLoop l .doneUnlock)
  | .doneUnlock => some ((s.unlockLoop l).setLoop l .user)

/-- `cleanup` -/
def cleanupStep (woken : Option (Fin n)) : Option (Pool n Λ) :=
  match s.cleanup with
  | .running => none
  | .post pc =>
    (s.post .cleanup .exitMessage woken pc).map fun (s, next) =>
      { s with cleanup := next.elim (.join 0) .post }
  | .join k =>
    if h : k < n then
      if s.worker ⟨k, h⟩ = .exited then some { s with cleanup := .join (k + 1) } else none
    else none

end Pool

/-- A turn of a thread, or what the program and the kernel do: a request of the code that
runs on a loop, the exit of the process, a wake-up of `uv_cond_wait` without a signal. -/
inductive Action (n : ℕ) (Λ : Type*) where
  | worker : Fin n → Option (Fin n) → Action n Λ
  | loop : Λ → Option (Fin n) → Action n Λ
  | cleanup : Option (Fin n) → Action n Λ
  | submit : Work Λ → Action n Λ
  | cancel : Work Λ → Action n Λ
  | exit : Action n Λ
  | spurious : Fin n → Action n Λ

/-- A work item is submitted once; `uv_cancel` is called on the thread of its loop, and
before its callback. -/
def Pool.step (s : Pool n Λ) : Action n Λ → Option (Pool n Λ)
  | .worker i woken => s.workerStep i woken
  | .loop l woken => s.loopStep l woken
  | .cleanup woken => s.cleanupStep woken
  | .submit w =>
    if s.loop w.loop = .user ∧ s.submitted w = false then some (s.uvWorkSubmit w) else none
  | .cancel w =>
    if s.loop w.loop = .user ∧ s.submitted w = true ∧ s.done w = [] then
      some (s.setLoop w.loop (.cancel w .lock))
    else none
  | .exit => if s.cleanup = .running then some { s with cleanup := .post .lock } else none
  | .spurious i => if s.worker i = .blocked then some (s.setWorker i .signalled) else none

/-- The pool after `init_once`. -/
def initPool (n : ℕ) (Λ : Type*) : Pool n Λ where
  mutex := none
  idleThreads := 0
  wq := []
  work _ := .null
  linkEmpty _ := false
  wqMutex _ := none
  loopWq _ := []
  wqAsync _ := false
  localWq _ := []
  worker _ := .lock
  loop _ := .user
  cleanup := .running
  submitted _ := false
  ran _ := 0
  returned _ := []
  done _ := []

def PoolReachable : Pool n Λ → Prop :=
  Transition.Reachable (· = initPool n Λ) fun s a t => s.step a = some t

end LibuvWorks.Threadpool
