import LibuvWorks.Pool.Threadpool

/-!
# The turns of the thread pool

`Turn s t` lists what a step from `s` to `t` can be: which thread takes it at which program
point, what it requires, and what it changes.
-/
namespace LibuvWorks.Threadpool

open Option
open Function (update)

variable {n : ℕ} {Λ : Type*} [DecidableEq Λ]

inductive WorkerTurn (s : Pool n Λ) (i : Fin n) : Pool n Λ → Prop
  | lock (hpc : s.worker i = .lock) (hfree : s.mutex = none) :
    WorkerTurn s i ({ s with mutex := some (.worker i) }.setWorker i .test)
  | wait (hpc : s.worker i = .test) (hwq : s.wq = []) :
    WorkerTurn s i
      ({ s with idleThreads := s.idleThreads + 1, mutex := none }.setWorker i .blocked)
  | seeExit (wq : List (Entry Λ)) (hpc : s.worker i = .test) (hwq : s.wq = .exitMessage :: wq) :
    WorkerTurn s i (s.setWorker i .signalNext)
  | take (w : Work Λ) (wq : List (Entry Λ)) (hpc : s.worker i = .test)
    (hwq : s.wq = .item w :: wq) :
    WorkerTurn s i
      ({ s with wq := wq, linkEmpty := update s.linkEmpty w true }.setWorker i (.unlock w))
  | resume (hpc : s.worker i = .signalled) (hfree : s.mutex = none) :
    WorkerTurn s i
      ({ s with mutex := some (.worker i), idleThreads := s.idleThreads - 1 }.setWorker i .test)
  | signal (j : Fin n) (hpc : s.worker i = .signalNext) (hj : s.worker j = .blocked) :
    WorkerTurn s i ((s.setWorker j .signalled).setWorker i .leave)
  | signalNone (hpc : s.worker i = .signalNext) (hnone : ∀ j, s.worker j ≠ .blocked) :
    WorkerTurn s i (s.setWorker i .leave)
  | leave (hpc : s.worker i = .leave) : WorkerTurn s i (s.unlock.setWorker i .exited)
  | unlock (w : Work Λ) (hpc : s.worker i = .unlock w) :
    WorkerTurn s i (s.unlock.setWorker i (.run w))
  | run (w : Work Λ) (hpc : s.worker i = .run w) (hwork : s.work w = .submitted) :
    WorkerTurn s i ({ s with ran := update s.ran w (s.ran w + 1) }.setWorker i (.lockLoop w))
  | abort (w : Work Λ) (hpc : s.worker i = .run w) (hwork : s.work w ≠ .submitted) :
    WorkerTurn s i (s.setWorker i .aborted)
  | lockLoop (w : Work Λ) (hpc : s.worker i = .lockLoop w) (hfree : s.wqMutex w.loop = none) :
    WorkerTurn s i
      ({ s with wqMutex := update s.wqMutex w.loop (some (.worker i)) }.setWorker i (.insert w))
  | insert (w : Work Λ) (hpc : s.worker i = .insert w) :
    WorkerTurn s i
      (({ s with work := update s.work w .null }.insertLoopTail w).setWorker i (.send w))
  | send (w : Work Λ) (hpc : s.worker i = .send w) :
    WorkerTurn s i
      ({ s with wqAsync := update s.wqAsync w.loop true }.setWorker i (.unlockLoop w))
  | unlockLoop (w : Work Λ) (hpc : s.worker i = .unlockLoop w) :
    WorkerTurn s i ((s.unlockLoop w.loop).setWorker i .lock)

/-- The turns of thread `t` in `post`, with the next program point. -/
inductive PostTurn (s : Pool n Λ) (t : Tid n Λ) (q : Entry Λ) :
    PostPc → Pool n Λ → Option PostPc → Prop
  | lock (hfree : s.mutex = none) :
    PostTurn s t q .lock { s with mutex := some t } (some .insert)
  | insertSignal (hidle : 0 < s.idleThreads) :
    PostTurn s t q .insert (s.insertTail q) (some .signal)
  | insertQuiet (hidle : s.idleThreads = 0) :
    PostTurn s t q .insert (s.insertTail q) (some .unlock)
  | signal (j : Fin n) (hj : s.worker j = .blocked) :
    PostTurn s t q .signal (s.setWorker j .signalled) (some .unlock)
  | signalNone (hnone : ∀ j, s.worker j ≠ .blocked) : PostTurn s t q .signal s (some .unlock)
  | unlock : PostTurn s t q .unlock s.unlock none

/-- The turns of the thread of `w.loop` in `uv__work_cancel`. -/
inductive CancelTurn (s : Pool n Λ) (w : Work Λ) : CancelPc → Pool n Λ → Prop
  | lock (hfree : s.mutex = none) :
    CancelTurn s w .lock
      ({ s with mutex := some (.loop w.loop) }.setLoop w.loop (.cancel w .lockLoop))
  | lockLoop (hfree : s.wqMutex w.loop = none) :
    CancelTurn s w .lockLoop
      ({ s with wqMutex := update s.wqMutex w.loop (some (.loop w.loop)) }.setLoop w.loop
        (.cancel w .test))
  | remove (hyes : s.cancellable w = true) :
    CancelTurn s w .test ((s.remove w).setLoop w.loop (.cancel w (.unlockLoop true)))
  | refuse (hno : s.cancellable w = false) :
    CancelTurn s w .test (s.setLoop w.loop (.cancel w (.unlockLoop false)))
  | unlockLoop (cancelled : Bool) :
    CancelTurn s w (.unlockLoop cancelled)
      ((s.unlockLoop w.loop).setLoop w.loop (.cancel w (.unlock cancelled)))
  | unlock : CancelTurn s w (.unlock true) (s.unlock.setLoop w.loop (.cancel w .mark))
  | busy : CancelTurn s w (.unlock false) ((s.unlock.returns w ebusy).setLoop w.loop .user)
  | mark :
    CancelTurn s w .mark
      ({ s with work := update s.work w .cancelled }.setLoop w.loop (.cancel w .relock))
  | relock (hfree : s.wqMutex w.loop = none) :
    CancelTurn s w .relock
      ({ s with wqMutex := update s.wqMutex w.loop (some (.loop w.loop)) }.setLoop w.loop
        (.cancel w .insert))
  | insert :
    CancelTurn s w .insert ((s.insertLoopTail w).setLoop w.loop (.cancel w .send))
  | send :
    CancelTurn s w .send
      ({ s with wqAsync := update s.wqAsync w.loop true }.setLoop w.loop (.cancel w .finish))
  | finish :
    CancelTurn s w .finish (((s.unlockLoop w.loop).returns w 0).setLoop w.loop .user)

inductive LoopTurn (s : Pool n Λ) (l : Λ) : Pool n Λ → Prop
  | callDone (w : Work Λ) (ws : List (Work Λ)) (hpc : s.loop l = .user)
    (hlocal : s.localWq l = w :: ws) :
    LoopTurn s l { s with
      localWq := update s.localWq l ws
      done := update s.done w (s.done w ++ [if s.work w = .cancelled then ecanceled else 0]) }
  | startDone (hpc : s.loop l = .user) (hlocal : s.localWq l = []) (hasync : s.wqAsync l = true) :
    LoopTurn s l ({ s with wqAsync := update s.wqAsync l false }.setLoop l .doneLock)
  | post (w : Work Λ) (pc : PostPc) (next : Option PostPc) (t : Pool n Λ)
    (hpc : s.loop l = .post w pc) (hturn : PostTurn s (.loop l) (.item w) pc t next) :
    LoopTurn s l (t.setLoop l (next.elim .user (.post w)))
  | cancel (w : Work Λ) (pc : CancelPc) (t : Pool n Λ) (hpc : s.loop l = .cancel w pc)
    (hturn : CancelTurn s w pc t) : LoopTurn s l t
  | doneLock (hpc : s.loop l = .doneLock) (hfree : s.wqMutex l = none) :
    LoopTurn s l
      ({ s with wqMutex := update s.wqMutex l (some (.loop l)) }.setLoop l .doneMove)
  | doneMove (hpc : s.loop l = .doneMove) :
    LoopTurn s l
      ({ s with
        loopWq := update s.loopWq l []
        localWq := update s.localWq l (s.loopWq l) }.setLoop l .doneUnlock)
  | doneUnlock (hpc : s.loop l = .doneUnlock) :
    LoopTurn s l ((s.unlockLoop l).setLoop l .user)

/-- The turns of the thread that runs `cleanup`. -/
inductive CleanupTurn (s : Pool n Λ) : Pool n Λ → Prop
  | post (pc : PostPc) (next : Option PostPc) (t : Pool n Λ) (hpc : s.cleanup = .post pc)
    (hturn : PostTurn s .cleanup .exitMessage pc t next) :
    CleanupTurn s { t with cleanup := next.elim (.join 0) .post }
  | join (k : Fin n) (hpc : s.cleanup = .join k) (hexited : s.worker k = .exited) :
    CleanupTurn s { s with cleanup := .join (k + 1) }

inductive Request (s : Pool n Λ) : Pool n Λ → Prop
  | submit (w : Work Λ) (hpc : s.loop w.loop = .user) (hnew : s.submitted w = false) :
    Request s (s.uvWorkSubmit w)
  | cancel (w : Work Λ) (hpc : s.loop w.loop = .user) (hold : s.submitted w = true)
    (hdone : s.done w = []) : Request s (s.setLoop w.loop (.cancel w .lock))
  | exit (hpc : s.cleanup = .running) : Request s { s with cleanup := .post .lock }
  | spurious (i : Fin n) (hpc : s.worker i = .blocked) : Request s (s.setWorker i .signalled)

variable {s t : Pool n Λ} {woken : Option (Fin n)}

theorem condSignal_eq_some :
    s.condSignal woken = some t →
      (∃ j, s.worker j = .blocked ∧ t = s.setWorker j .signalled) ∨
      ((∀ j, s.worker j ≠ .blocked) ∧ t = s) := by
  cases woken with
  | none =>
    intro h
    simp only [Pool.condSignal, ite_none_right_eq_some, Option.some.injEq] at h
    exact .inr ⟨h.1, h.2.symm⟩
  | some j =>
    intro h
    simp only [Pool.condSignal, ite_none_right_eq_some, Option.some.injEq] at h
    exact .inl ⟨j, h.1, h.2.symm⟩

theorem workerTurn_of_step {i : Fin n} (h : s.workerStep i woken = some t) : WorkerTurn s i t := by
  unfold Pool.workerStep at h
  cases hpc : s.worker i <;> simp only [hpc, reduceCtorEq, Option.some.injEq, map_eq_some_iff,
    Pool.lock, Pool.lockLoop, ite_none_right_eq_some] at h
  case lock =>
    obtain ⟨_, ⟨hfree, rfl⟩, rfl⟩ := h
    exact .lock hpc hfree
  case test =>
    split at h
    next hwq =>
      cases h
      exact .wait hpc hwq
    next wq hwq =>
      cases h
      exact .seeExit wq hpc hwq
    next w wq hwq =>
      cases h
      exact .take w wq hpc hwq
  case signalled =>
    obtain ⟨_, ⟨hfree, rfl⟩, rfl⟩ := h
    exact .resume hpc hfree
  case signalNext =>
    obtain ⟨_, hsignal, rfl⟩ := h
    rcases condSignal_eq_some hsignal with ⟨j, hj, rfl⟩ | ⟨hnone, rfl⟩
    · exact .signal j hpc hj
    · exact .signalNone hpc hnone
  case leave =>
    subst h
    exact .leave hpc
  case unlock w =>
    subst h
    exact .unlock w hpc
  case run w =>
    split_ifs at h with hwork
    · cases h
      exact .run w hpc hwork
    · cases h
      exact .abort w hpc hwork
  case lockLoop w =>
    obtain ⟨_, ⟨hfree, rfl⟩, rfl⟩ := h
    exact .lockLoop w hpc hfree
  case insert w =>
    subst h
    exact .insert w hpc
  case send w =>
    subst h
    exact .send w hpc
  case unlockLoop w =>
    subst h
    exact .unlockLoop w hpc

theorem postTurn_of_step {tid : Tid n Λ} {q : Entry Λ} {pc : PostPc}
    {next : Option PostPc} (h : s.post tid q woken pc = some (t, next)) :
    PostTurn s tid q pc t next := by
  cases pc <;> simp only [Pool.post, Pool.lock, map_eq_some_iff, Prod.mk.injEq,
    ite_none_right_eq_some, Option.some.injEq] at h
  case lock =>
    obtain ⟨_, ⟨hfree, rfl⟩, rfl, rfl⟩ := h
    exact .lock hfree
  case insert =>
    obtain ⟨rfl, rfl⟩ := h
    split_ifs with hidle
    · exact .insertSignal hidle
    · exact .insertQuiet (by omega)
  case signal =>
    obtain ⟨_, hsignal, rfl, rfl⟩ := h
    rcases condSignal_eq_some hsignal with ⟨j, hj, rfl⟩ | ⟨hnone, rfl⟩
    · exact .signal j hj
    · exact .signalNone hnone
  case unlock =>
    obtain ⟨rfl, rfl⟩ := h
    exact .unlock

theorem cancelTurn_of_step {w : Work Λ} {pc : CancelPc} (h : s.uvWorkCancel w pc = some t) :
    CancelTurn s w pc t := by
  cases pc <;> simp only [Pool.uvWorkCancel, Pool.lock, Pool.lockLoop, map_eq_some_iff,
    ite_none_right_eq_some, Option.some.injEq] at h
  case lock =>
    obtain ⟨_, ⟨hfree, rfl⟩, rfl⟩ := h
    exact .lock hfree
  case lockLoop =>
    obtain ⟨_, ⟨hfree, rfl⟩, rfl⟩ := h
    exact .lockLoop hfree
  case test =>
    split_ifs at h with hyes
    · cases h
      exact .remove hyes
    · cases h
      exact .refuse (by simpa using hyes)
  case unlockLoop c =>
    subst h
    exact .unlockLoop c
  case unlock c =>
    cases c
    · cases h
      exact .busy
    · cases h
      exact .unlock
  case mark =>
    subst h
    exact .mark
  case relock =>
    obtain ⟨_, ⟨hfree, rfl⟩, rfl⟩ := h
    exact .relock hfree
  case insert =>
    subst h
    exact .insert
  case send =>
    subst h
    exact .send
  case finish =>
    subst h
    exact .finish

theorem loopTurn_of_step {l : Λ} (h : s.loopStep l woken = some t) : LoopTurn s l t := by
  unfold Pool.loopStep at h
  cases hpc : s.loop l <;> simp only [hpc, Pool.lockLoop, map_eq_some_iff,
    ite_none_right_eq_some, Option.some.injEq] at h
  case user =>
    split at h
    next w ws hlocal =>
      cases h
      exact .callDone w ws hpc hlocal
    next hlocal =>
      split_ifs at h with hasync
      cases h
      exact .startDone hpc hlocal hasync
  case post w pc =>
    obtain ⟨⟨t, next⟩, hpost, rfl⟩ := h
    exact .post w pc next t hpc (postTurn_of_step hpost)
  case cancel w pc => exact .cancel w pc t hpc (cancelTurn_of_step h)
  case doneLock =>
    obtain ⟨_, ⟨hfree, rfl⟩, rfl⟩ := h
    exact .doneLock hpc hfree
  case doneMove =>
    subst h
    exact .doneMove hpc
  case doneUnlock =>
    subst h
    exact .doneUnlock hpc

theorem cleanupTurn_of_step (h : s.cleanupStep woken = some t) : CleanupTurn s t := by
  unfold Pool.cleanupStep at h
  cases hpc : s.cleanup <;> simp only [hpc, reduceCtorEq, map_eq_some_iff] at h
  case post pc =>
    obtain ⟨⟨t, next⟩, hpost, rfl⟩ := h
    exact .post pc next t hpc (postTurn_of_step hpost)
  case join k =>
    split_ifs at h with hk hexited
    cases h
    exact .join ⟨k, hk⟩ hpc hexited

inductive Turn (s t : Pool n Λ) : Prop
  | worker (i : Fin n) (hturn : WorkerTurn s i t)
  | loop (l : Λ) (hturn : LoopTurn s l t)
  | cleanup (hturn : CleanupTurn s t)

def Action.isTurn : Action n Λ → Bool
  | .worker .. | .loop .. | .cleanup .. => true
  | .submit _ | .cancel _ | .exit | .spurious _ => false

theorem turn_of_step {a : Action n Λ} (h : s.step a = some t) :
    a.isTurn = true ∧ Turn s t ∨ a.isTurn = false ∧ Request s t := by
  cases a <;> simp only [Pool.step, ite_none_right_eq_some, Option.some.injEq] at h
  case worker i woken => exact .inl ⟨rfl, .worker i (workerTurn_of_step h)⟩
  case loop l woken => exact .inl ⟨rfl, .loop l (loopTurn_of_step h)⟩
  case cleanup woken => exact .inl ⟨rfl, .cleanup (cleanupTurn_of_step h)⟩
  case submit w =>
    obtain ⟨⟨hpc, hnew⟩, rfl⟩ := h
    exact .inr ⟨rfl, .submit w hpc hnew⟩
  case cancel w =>
    obtain ⟨⟨hpc, hold, hdone⟩, rfl⟩ := h
    exact .inr ⟨rfl, .cancel w hpc hold hdone⟩
  case exit =>
    obtain ⟨hpc, rfl⟩ := h
    exact .inr ⟨rfl, .exit hpc⟩
  case spurious i =>
    obtain ⟨hpc, rfl⟩ := h
    exact .inr ⟨rfl, .spurious i hpc⟩

end LibuvWorks.Threadpool
