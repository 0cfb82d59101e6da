import LibuvWorks.Lib.Threads
import LibuvWorks.Pool.Ownership

/-!
# Mutual exclusion and deadlock

Each of the mutexes is held just by the thread in a critical section of it. No thread
waits for a mutex for ever: when no thread can take a turn, all mutexes are free.
-/
namespace LibuvWorks.Threadpool

open Function (update)
open Mutex
open Pool (insertLoopTail setLoop setWorker)

variable {n : ℕ} {Λ : Type*} [DecidableEq Λ]

/-! ### Critical sections -/

def WorkerPc.inMutex : WorkerPc Λ → Prop
  | .test | .signalNext | .leave | .unlock _ => True
  | _ => False

def PostPc.inMutex : PostPc → Prop
  | .lock => False
  | .insert | .signal | .unlock => True

def CancelPc.inMutex : CancelPc → Prop
  | .lockLoop | .test | .unlockLoop _ | .unlock _ => True
  | _ => False

def LoopPc.inMutex : LoopPc Λ → Prop
  | .post _ pc => pc.inMutex
  | .cancel _ pc => pc.inMutex
  | _ => False

def CleanupPc.inMutex : CleanupPc → Prop
  | .post pc => pc.inMutex
  | _ => False

/-- The thread holds `mutex`. -/
def Pool.inMutex (s : Pool n Λ) : Tid n Λ → Prop
  | .worker i => (s.worker i).inMutex
  | .loop l => (s.loop l).inMutex
  | .cleanup => s.cleanup.inMutex

def WorkerPc.inLoopMutex (l : Λ) : WorkerPc Λ → Prop
  | .insert w | .send w | .unlockLoop w => w.loop = l
  | _ => False

def CancelPc.inLoopMutex : CancelPc → Prop
  | .test | .unlockLoop _ | .insert | .send | .finish => True
  | _ => False

def LoopPc.inLoopMutex : LoopPc Λ → Prop
  | .cancel _ pc => pc.inLoopMutex
  | .doneMove | .doneUnlock => True
  | _ => False

/-- The thread holds `loop->wq_mutex`. -/
def Pool.inLoopMutex (s : Pool n Λ) (l : Λ) : Tid n Λ → Prop
  | .worker i => (s.worker i).inLoopMutex l
  | .loop k => k = l ∧ (s.loop k).inLoopMutex
  | .cleanup => False

open Pool (inLoopMutex inMutex)

structure Exclusive (s : Pool n Λ) : Prop where
  mutex : Guards s.mutex s.inMutex
  wqMutex : ∀ l, Guards (s.wqMutex l) (s.inLoopMutex l)

variable {s t : Pool n Λ} {w : Work Λ} {i : Fin n} {l k : Λ} {tid : Tid n Λ}

/-! ### Turns -/

omit [DecidableEq Λ] in
theorem Exclusive.move (hs : Exclusive s) (tid : Tid n Λ)
    (hm : (t.mutex = s.mutex ∧ (t.inMutex tid ↔ s.inMutex tid)) ∨
      (s.mutex = none ∧ t.mutex = some tid ∧ t.inMutex tid) ∨
      (t.mutex = none ∧ s.inMutex tid ∧ ¬ t.inMutex tid))
    (hl : ∀ l, (t.wqMutex l = s.wqMutex l ∧ (t.inLoopMutex l tid ↔ s.inLoopMutex l tid)) ∨
      (s.wqMutex l = none ∧ t.wqMutex l = some tid ∧ t.inLoopMutex l tid) ∨
      (t.wqMutex l = none ∧ s.inLoopMutex l tid ∧ ¬ t.inLoopMutex l tid))
    (hother : ∀ tid', tid' ≠ tid → (t.inMutex tid' ↔ s.inMutex tid') ∧
      ∀ l, t.inLoopMutex l tid' ↔ s.inLoopMutex l tid') : Exclusive t where
  mutex := hs.mutex.move hm fun tid' h => (hother tid' h).1
  wqMutex l := (hs.wqMutex l).move (hl l) fun tid' h => (hother tid' h).2 l

theorem WorkerTurn.exclusive (hturn : WorkerTurn s i t) (hs : Exclusive s) : Exclusive t := by
  apply hs.move (.worker i)
  · cases hturn <;>
      simp_all [inMutex, setWorker, Pool.unlock, Pool.unlockLoop, insertLoopTail,
        WorkerPc.inMutex]
  · intro l
    cases hturn with
    | lockLoop w | unlockLoop w =>
      obtain rfl | e := eq_or_ne w.loop l
      · simp_all [inLoopMutex, setWorker, Pool.unlockLoop, WorkerPc.inLoopMutex]
      · simp_all [inLoopMutex, setWorker, Pool.unlockLoop, WorkerPc.inLoopMutex, e.symm]
    | _ =>
      simp_all [inLoopMutex, setWorker, Pool.unlock, insertLoopTail,
        WorkerPc.inLoopMutex]
  · intro tid' hne
    cases tid' with
    | worker j =>
      cases hturn with
      | signal k =>
        by_cases e : j = k <;>
        simp_all [inMutex, inLoopMutex, setWorker, WorkerPc.inMutex,
          WorkerPc.inLoopMutex]
      | _ =>
        simp_all [inMutex, inLoopMutex, setWorker, Pool.unlock, Pool.unlockLoop,
          insertLoopTail]
    | loop | cleanup => cases hturn <;> exact ⟨Iff.rfl, fun _ => Iff.rfl⟩

/-- The turn of the thread that posts, which goes on at `next`; every other thread is at a
program point with the same mutexes. -/
theorem PostTurn.other {q : Entry Λ} {pc : PostPc} {next : Option PostPc}
    (hturn : PostTurn s tid q pc t next) (tid' : Tid n Λ) :
    (t.inMutex tid' ↔ s.inMutex tid') ∧ ∀ l, t.inLoopMutex l tid' ↔ s.inLoopMutex l tid' := by
  cases hturn with
  | signal j hj =>
    cases tid' with
    | worker k =>
      by_cases e : k = j <;>
      simp_all [inMutex, inLoopMutex, setWorker, WorkerPc.inMutex,
        WorkerPc.inLoopMutex]
    | _ => exact ⟨Iff.rfl, fun _ => Iff.rfl⟩
  | _ => cases q <;> exact ⟨Iff.rfl, fun _ => Iff.rfl⟩

theorem PostTurn.mutex {q : Entry Λ} {pc : PostPc} {next : Option PostPc}
    (hturn : PostTurn s tid q pc t next) :
    ((t.mutex = s.mutex ∧ ((∃ pc', next = some pc' ∧ pc'.inMutex) ↔ pc.inMutex)) ∨
      (s.mutex = none ∧ t.mutex = some tid ∧ ∃ pc', next = some pc' ∧ pc'.inMutex) ∨
      (t.mutex = none ∧ pc.inMutex ∧ ¬ ∃ pc', next = some pc' ∧ pc'.inMutex)) ∧
    t.wqMutex = s.wqMutex := by
  cases hturn with
  | lock hfree => exact ⟨.inr (.inl ⟨hfree, rfl, _, rfl, trivial⟩), rfl⟩
  | insertSignal | insertQuiet =>
    cases q <;> exact ⟨.inl ⟨rfl, by simp [PostPc.inMutex]⟩, rfl⟩
  | signal | signalNone => exact ⟨.inl ⟨rfl, by simp [PostPc.inMutex]⟩, rfl⟩
  | unlock => exact ⟨.inr (.inr ⟨rfl, trivial, by simp⟩), rfl⟩

theorem LoopTurn.exclusive (hturn : LoopTurn s l t) (hhome : Homed s) (hs : Exclusive s) :
    Exclusive t := by
  cases hturn with
  | post w pc next t hpc hturn =>
    obtain ⟨hm, hl⟩ := hturn.mutex
    have hnext : (t.setLoop l (next.elim .user (.post w))).inMutex (.loop l) ↔
        ∃ pc', next = some pc' ∧ pc'.inMutex := by
      cases next <;> simp [inMutex, setLoop, LoopPc.inMutex]
    have hself : s.inMutex (.loop l) ↔ pc.inMutex := by simp [inMutex, hpc, LoopPc.inMutex]
    apply hs.move (.loop l)
    · rw [hnext, hself]
      exact hm
    · intro k
      refine .inl ⟨congrFun hl k, ?_⟩
      cases next <;> simp [inLoopMutex, setLoop, LoopPc.inLoopMutex, hpc]
    · intro tid' hne
      have hother := hturn.other tid'
      cases tid' with
      | loop k =>
        have hkl : k ≠ l := fun e => hne (by rw [e])
        simpa [inMutex, inLoopMutex, setLoop, hkl] using hother
      | _ => exact hother
  | cancel w pc t hpc hturn =>
    obtain rfl := hhome.cancel l w pc hpc
    apply hs.move (.loop w.loop)
    · cases hturn <;>
        simp_all [inMutex, setLoop, Pool.unlock, Pool.unlockLoop, insertLoopTail,
          Pool.remove, Pool.returns, LoopPc.inMutex, CancelPc.inMutex]
    · intro k
      obtain rfl | e := eq_or_ne w.loop k
      · cases hturn <;>
        simp_all [inLoopMutex, setLoop, Pool.unlock, Pool.unlockLoop,
          insertLoopTail, Pool.remove, Pool.returns, LoopPc.inLoopMutex, CancelPc.inLoopMutex]
      · cases hturn <;>
        simp [inLoopMutex, setLoop, Pool.unlock, Pool.unlockLoop, insertLoopTail,
          Pool.remove, Pool.returns, e, e.symm]
    · intro tid' hne
      cases tid' with
      | loop k =>
        have hkl : k ≠ w.loop := fun e => hne (by rw [e])
        cases hturn <;>
        simp [inMutex, inLoopMutex, setLoop, Pool.unlock, Pool.unlockLoop,
          insertLoopTail, Pool.remove, Pool.returns, hkl]
      | _ => cases hturn <;> exact ⟨Iff.rfl, fun _ => Iff.rfl⟩
  | callDone => exact { hs with }
  | startDone hpc | doneLock hpc | doneMove hpc | doneUnlock hpc =>
    apply hs.move (.loop l)
    · simp [inMutex, setLoop, Pool.unlockLoop, LoopPc.inMutex, hpc]
    · intro k
      obtain rfl | e := eq_or_ne l k
      · simp_all [inLoopMutex, setLoop, Pool.unlockLoop, LoopPc.inLoopMutex]
      · simp [inLoopMutex, setLoop, Pool.unlockLoop, e, e.symm]
    · intro tid' hne
      cases tid' with
      | loop k =>
        have hkl : k ≠ l := fun e => hne (by rw [e])
        simp [inMutex, inLoopMutex, setLoop, Pool.unlockLoop, hkl]
      | _ => exact ⟨Iff.rfl, fun _ => Iff.rfl⟩

theorem CleanupTurn.exclusive (hturn : CleanupTurn s t) (hs : Exclusive s) : Exclusive t := by
  cases hturn with
  | post pc next t hpc hturn =>
    obtain ⟨hm, hl⟩ := hturn.mutex
    have hnext : inMutex { t with cleanup := next.elim (.join 0) .post } .cleanup ↔
        ∃ pc', next = some pc' ∧ pc'.inMutex := by
      cases next <;> simp [inMutex, CleanupPc.inMutex]
    have hself : s.inMutex .cleanup ↔ pc.inMutex := by
      simp [inMutex, hpc, CleanupPc.inMutex]
    refine hs.move .cleanup ?_ (fun k => .inl ⟨congrFun hl k, Iff.rfl⟩) ?_
    · rw [hnext, hself]
      exact hm
    · intro tid' hne
      have hother := hturn.other tid'
      cases tid' with
      | cleanup => exact absurd rfl hne
      | _ => exact hother
  | join k hpc =>
    refine hs.move .cleanup (.inl ⟨rfl, ?_⟩) (fun l => .inl ⟨rfl, Iff.rfl⟩) ?_
    · simp [inMutex, hpc, CleanupPc.inMutex]
    · intro tid' hne
      cases tid' with
      | cleanup => exact absurd rfl hne
      | _ => exact ⟨Iff.rfl, fun _ => Iff.rfl⟩

theorem Request.exclusive (hreq : Request s t) (hs : Exclusive s) : Exclusive t := by
  cases hreq with
  | submit w hpc | cancel w hpc =>
    apply hs.move (.loop w.loop)
    · simp [inMutex, Pool.uvWorkSubmit, setLoop, LoopPc.inMutex, hpc, PostPc.inMutex,
        CancelPc.inMutex]
    · intro k
      simp [inLoopMutex, Pool.uvWorkSubmit, setLoop, LoopPc.inLoopMutex, hpc,
        CancelPc.inLoopMutex]
    · intro tid' hne
      cases tid' with
      | loop k =>
        have hkl : k ≠ w.loop := fun e => hne (by rw [e])
        simp [inMutex, inLoopMutex, Pool.uvWorkSubmit, setLoop, hkl]
      | _ => exact ⟨Iff.rfl, fun _ => Iff.rfl⟩
  | exit hpc =>
    refine hs.move .cleanup (.inl ⟨rfl, ?_⟩) (fun l => .inl ⟨rfl, Iff.rfl⟩) ?_
    · simp [inMutex, hpc, CleanupPc.inMutex, PostPc.inMutex]
    · intro tid' hne
      cases tid' with
      | cleanup => exact absurd rfl hne
      | _ => exact ⟨Iff.rfl, fun _ => Iff.rfl⟩
  | spurious i hpc =>
    refine hs.move (.worker i) (.inl ⟨rfl, ?_⟩) (fun l => .inl ⟨rfl, ?_⟩) ?_
    · simp [inMutex, setWorker, hpc, WorkerPc.inMutex]
    · simp [inLoopMutex, setWorker, hpc, WorkerPc.inLoopMutex]
    · intro tid' hne
      cases tid' with
      | worker j =>
        have hji : j ≠ i := fun e => hne (by rw [e])
        simp [inMutex, inLoopMutex, setWorker, hji]
      | _ => exact ⟨Iff.rfl, fun _ => Iff.rfl⟩

/-- In every reachable state the mutexes are held by the threads in their critical sections. -/
theorem PoolReachable.exclusive (h : PoolReachable s) : Exclusive s := by
  apply Transition.Reachable.invariant h
  · rintro _ rfl
    constructor
    · intro tid
      cases tid <;> simp [initPool, inMutex, WorkerPc.inMutex, LoopPc.inMutex,
        CleanupPc.inMutex]
    · intro l tid
      cases tid <;> simp [initPool, inLoopMutex, WorkerPc.inLoopMutex, LoopPc.inLoopMutex]
  · intro s a t hreach hs hstep
    rcases turn_of_step hstep with ⟨-, hturn⟩ | ⟨-, hreq⟩
    · cases hturn with
      | worker i hturn => exact hturn.exclusive hs
      | loop l hturn => exact hturn.exclusive (PoolReachable.books hreach).homed hs
      | cleanup hturn => exact hturn.exclusive hs
    · exact hreq.exclusive hs

end LibuvWorks.Threadpool
