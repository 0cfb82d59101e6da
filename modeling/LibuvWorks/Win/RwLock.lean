import LibuvWorks.Lib.Transition
import Mathlib.Data.Fintype.Basic

/-!
# Read-write locks: `win/thread.c`

Threads take turns at every critical section, wait and release. `num_readers_` has no bound here.
-/
namespace LibuvWorks.Win

open Function (update)

inductive RwPc where
  | idle : RwPc
  /-- `EnterCriticalSection` of `uv_rwlock_rdlock` -/
  | rdEnter : RwPc
  /-- `++num_readers_ == 1` -/
  | rdCount : RwPc
  /-- `WaitForSingleObject(write_semaphore_, INFINITE)` of the first reader -/
  | rdWait : RwPc
  | rdLeave : RwPc
  /-- `uv_rwlock_tryrdlock` in the critical section -/
  | tryTest : RwPc
  | tryLeave (ok : Bool) : RwPc
  /-- `EnterCriticalSection` of `uv_rwlock_rdunlock` -/
  | unEnter : RwPc
  /-- `--num_readers_ == 0` -/
  | unCount : RwPc
  /-- `ReleaseSemaphore` of the last reader -/
  | unRelease : RwPc
  | unLeave : RwPc
  /-- `WaitForSingleObject` of `uv_rwlock_wrlock` -/
  | wrWait : RwPc
  deriving DecidableEq

/-- A thread: where it is, how often it holds the lock for reading, and whether it holds it for
writing. It holds the lock for reading until `uv_rwlock_rdunlock` has counted it. -/
structure RwThread where
  pc : RwPc
  reads : ℕ
  writes : Bool

/-- `uv_rwlock_t`: the owner of `num_readers_lock_`, `num_readers_` and the value of
`write_semaphore_`, with the threads. -/
structure RwLock (τ : Type*) where
  owner : Option τ
  numReaders : ℕ
  semaphore : ℕ
  thread : τ → RwThread

namespace RwLock

variable {τ : Type*} [DecidableEq τ] (s : RwLock τ) (i : τ)

def put (x : RwThread) : RwLock τ := { s with thread := update s.thread i x }

def goto (pc : RwPc) : RwLock τ := s.put i { s.thread i with pc }

/-- `EnterCriticalSection` -/
def enter (pc : RwPc) : Option (RwLock τ) :=
  if s.owner = none then some { s.goto i pc with owner := some i } else none

/-- `LeaveCriticalSection`, and the function returns. -/
def leave (reads : ℕ) : RwLock τ :=
  { s.put i { s.thread i with pc := .idle, reads } with owner := none }

/-- `ReleaseSemaphore`; the semaphore was created with the maximum 1. -/
def release : Option (RwLock τ) :=
  if s.semaphore = 0 then some { s with semaphore := 1 } else none

/-- The body of `uv_rwlock_tryrdlock`. -/
def tryRead : RwLock τ :=
  if s.numReaders = 0 then
    if 0 < s.semaphore then
      { s.goto i (.tryLeave true) with semaphore := s.semaphore - 1, numReaders := 1 }
    else s.goto i (.tryLeave false)
  else { s.goto i (.tryLeave true) with numReaders := s.numReaders + 1 }

/-- A turn of a thread in a call; `none` where it waits. -/
def turn : Option (RwLock τ) :=
  let x := s.thread i
  match x.pc with
  | .idle => none
  | .rdEnter => s.enter i .rdCount
  | .rdCount =>
    let pc := if s.numReaders + 1 = 1 then .rdWait else .rdLeave
    some { s.goto i pc with numReaders := s.numReaders + 1 }
  | .rdWait =>
    if 0 < s.semaphore then some { s.goto i .rdLeave with semaphore := s.semaphore - 1 } else none
  | .rdLeave => some (s.leave i (x.reads + 1))
  | .tryTest => some (s.tryRead i)
  | .tryLeave ok => some (s.leave i (x.reads + ok.toNat))
  | .unEnter => s.enter i .unCount
  | .unCount =>
    let pc := if s.numReaders - 1 = 0 then .unRelease else .unLeave
    let t := s.put i { x with pc, reads := x.reads - 1 }
    some { t with numReaders := s.numReaders - 1 }
  | .unRelease => (s.goto i .unLeave).release
  | .unLeave => some (s.leave i x.reads)
  | .wrWait =>
    if 0 < s.semaphore then
      let t := s.put i { x with pc := .idle, writes := true }
      some { t with semaphore := s.semaphore - 1 }
    else none

/-- `uv_rwlock_tryrdlock` up to the critical section, or all of it if that is busy. -/
def tryrdlock : RwLock τ :=
  if s.owner = none then { s.goto i .tryTest with owner := some i } else s

/-- `uv_rwlock_trywrlock` -/
def trywrlock : RwLock τ :=
  if 0 < s.semaphore then
    { s.put i { s.thread i with writes := true } with semaphore := s.semaphore - 1 }
  else s

/-- `uv_rwlock_wrunlock` -/
def wrunlock : Option (RwLock τ) := (s.put i { s.thread i with writes := false }).release

inductive Event (τ : Type*) where
  | rdlock (i : τ) : Event τ
  | tryrdlock (i : τ) : Event τ
  | rdunlock (i : τ) : Event τ
  | wrlock (i : τ) : Event τ
  | trywrlock (i : τ) : Event τ
  | wrunlock (i : τ) : Event τ
  | turn (i : τ) : Event τ

/-- The events that can happen: a thread is in one call, and unlocks what it holds. -/
def Enabled : Event τ → Prop
  | .rdlock i => (s.thread i).pc = .idle
  | .tryrdlock i => (s.thread i).pc = .idle
  | .rdunlock i => (s.thread i).pc = .idle ∧ 0 < (s.thread i).reads
  | .wrlock i => (s.thread i).pc = .idle
  | .trywrlock i => (s.thread i).pc = .idle
  | .wrunlock i => (s.thread i).pc = .idle ∧ (s.thread i).writes = true
  | .turn i => (s.thread i).pc ≠ .idle

instance (e : Event τ) : Decidable (s.Enabled e) := by
  cases e <;> unfold Enabled <;> infer_instance

def next : Event τ → Option (RwLock τ)
  | .rdlock i => some (s.goto i .rdEnter)
  | .tryrdlock i => some (s.tryrdlock i)
  | .rdunlock i => some (s.goto i .unEnter)
  | .wrlock i => some (s.goto i .wrWait)
  | .trywrlock i => some (s.trywrlock i)
  | .wrunlock i => s.wrunlock i
  | .turn i => s.turn i

def step (e : Event τ) : Option (RwLock τ) := if s.Enabled e then s.next e else none

def Step (s : RwLock τ) (e : Event τ) (t : RwLock τ) : Prop := s.step e = some t

/-- What `uv_rwlock_init` makes, before any call. -/
structure Init (s : RwLock τ) : Prop where
  owner : s.owner = none
  numReaders : s.numReaders = 0
  semaphore : s.semaphore = 1
  thread : ∀ i, s.thread i = ⟨.idle, 0, false⟩

def Blocked : Prop :=
  ((s.thread i).pc = .rdEnter ∧ s.owner ≠ none) ∨ ((s.thread i).pc = .unEnter ∧ s.owner ≠ none) ∨
    ((s.thread i).pc = .rdWait ∧ s.semaphore = 0) ∨ ((s.thread i).pc = .wrWait ∧ s.semaphore = 0)

instance : Decidable (s.Blocked i) := by
  unfold Blocked
  infer_instance

def Holds : Prop := s.owner = some i ∨ 0 < (s.thread i).reads ∨ (s.thread i).writes = true

end RwLock

end LibuvWorks.Win
