import LibuvWorks.Pool.WakeUp

/-!
# When the threads come to rest

A pool is at rest when no thread can take a turn. Then nobody holds a mutex, the loops
have called every callback, and the workers wait for work or have left.
-/
namespace LibuvWorks.Threadpool

open Function (update)
open Pool (setWorker step)

variable {n : ℕ} {Λ : Type*} [DecidableEq Λ]

def Pool.AtRest (s : Pool n Λ) : Prop := ∀ a : Action n Λ, a.isTurn = true → s.step a = none

/-- Whenever a loop has finished items, `uv__work_done` is on its way to them. -/
def Announced (s : Pool n Λ) : Prop :=
  ∀ l, s.loopWq l ≠ [] → s.wqAsync l = true ∨ (∃ i w, s.worker i = .send w ∧ w.loop = l) ∨
    (∃ w, s.loop l = .cancel w .send) ∨ s.loop l = .doneLock ∨ s.loop l = .doneMove

variable {s t : Pool n Λ} {w : Work Λ} {i : Fin n} {l : Λ} {tid : Tid n Λ}

theorem WorkerTurn.announced (hturn : WorkerTurn s i t) (hs : Announced s) : Announced t := by
  intro l hl
  cases hturn with
  | insert w hpc =>
    by_cases e : w.loop = l
    · exact .inr (.inl ⟨i, w, by simp [setWorker], e⟩)
    · have hl' : s.loopWq l ≠ [] := by
        simpa [setWorker, Pool.insertLoopTail, Ne.symm e] using hl
      rcases hs l hl' with h | ⟨j, w', hj, hw'⟩ | h
      · exact .inl h
      · have hne : j ≠ i := by
          rintro rfl
          rw [hpc] at hj
          cases hj
        exact .inr (.inl ⟨j, w', by simpa [setWorker, Pool.insertLoopTail, hne] using hj, hw'⟩)
      · exact .inr (.inr h)
  | send w hpc =>
    by_cases e : w.loop = l
    · exact .inl (by simp [setWorker, e])
    · rcases hs l hl with h | ⟨j, w', hj, hw'⟩ | h
      · exact .inl (by simpa [setWorker, Ne.symm e] using h)
      · have hne : j ≠ i := by
          rintro rfl
          rw [hpc] at hj
          cases hj
          exact e hw'
        exact .inr (.inl ⟨j, w', by simpa [setWorker, hne] using hj, hw'⟩)
      · exact .inr (.inr h)
  | signal k hpc hk =>
    rcases hs l hl with h | ⟨j, w', hj, hw'⟩ | h
    · exact .inl h
    · have hne : j ≠ i := by
        rintro rfl
        rw [hpc] at hj
        cases hj
      have hne' : j ≠ k := by
        rintro rfl
        rw [hk] at hj
        cases hj
      exact .inr (.inl ⟨j, w', by simpa [setWorker, hne, hne'] using hj, hw'⟩)
    · exact .inr (.inr h)
  | lock hpc | wait hpc | seeExit _ hpc | take _ _ hpc | resume hpc | signalNone hpc | leave hpc
  | unlock _ hpc | run _ hpc | abort _ hpc | lockLoop _ hpc | unlockLoop _ hpc =>
    rcases hs l hl with h | ⟨j, w', hj, hw'⟩ | h
    · exact .inl h
    · have hne : j ≠ i := by
        rintro rfl
        rw [hpc] at hj
        cases hj
      exact .inr (.inl ⟨j, w',
        by simpa [setWorker, Pool.unlock, Pool.unlockLoop, hne] using hj, hw'⟩)
    · exact .inr (.inr h)

theorem Announced.setLoop {pc : LoopPc Λ} (hs : Announced s)
    (hpc : ∀ w, s.loop l ≠ .cancel w .send) (hlock : s.loop l ≠ .doneLock)
    (hmove : s.loop l ≠ .doneMove) : Announced (s.setLoop l pc) := by
  intro k hk
  rcases hs k hk with h | h | ⟨w, h⟩ | h | h
  · exact .inl h
  · exact .inr (.inl h)
  all_goals
    have hne : k ≠ l := by
      rintro rfl
      first | exact hpc _ h | exact hlock h | exact hmove h
  · exact .inr (.inr (.inl ⟨w, by simpa [Pool.setLoop, hne] using h⟩))
  · exact .inr (.inr (.inr (.inl (by simpa [Pool.setLoop, hne] using h))))
  · exact .inr (.inr (.inr (.inr (by simpa [Pool.setLoop, hne] using h))))

omit [DecidableEq Λ] in
theorem Announced.of_eq (hs : Announced s) (hwq : t.loopWq = s.loopWq)
    (hasync : t.wqAsync = s.wqAsync) (hworker : t.worker = s.worker) (hloop : t.loop = s.loop) :
    Announced t := by
  unfold Announced
  rw [hwq, hasync, hworker, hloop]
  exact hs

omit [DecidableEq Λ] in
theorem Announced.wakeWorker {j : Fin n} (hs : Announced s) (hj : s.worker j = .blocked) :
    Announced (s.setWorker j .signalled) := by
  intro l hl
  rcases hs l hl with h | ⟨k, w, hk, hw⟩ | h
  · exact .inl h
  · have hne : k ≠ j := by
      rintro rfl
      rw [hj] at hk
      cases hk
    exact .inr (.inl ⟨k, w, by simpa [setWorker, hne] using hk, hw⟩)
  · exact .inr (.inr h)

theorem PostTurn.announced {q : Entry Λ} {pc : PostPc} {next : Option PostPc}
    (hturn : PostTurn s tid q pc t next) (hs : Announced s) : Announced t := by
  cases hturn with
  | signal j hj => exact hs.wakeWorker hj
  | _ => cases q <;> exact hs.of_eq rfl rfl rfl rfl

theorem CancelTurn.announced {pc : CancelPc} (hturn : CancelTurn s w pc t)
    (hpc : s.loop w.loop = .cancel w pc) (hs : Announced s) : Announced t := by
  cases hturn with
  | remove =>
    have hremove : Announced (s.remove w) := by
      intro l hl
      refine hs l fun hnil => hl ?_
      by_cases e : l = w.loop
      · subst e
        simp [Pool.remove, hnil]
      · simp [Pool.remove, e, hnil]
    exact hremove.setLoop (by simp [Pool.remove, hpc]) (by simp [Pool.remove, hpc])
      (by simp [Pool.remove, hpc])
  | insert =>
    intro l hl
    by_cases e : l = w.loop
    · exact .inr (.inr (.inl ⟨w, by simp [Pool.setLoop, e]⟩))
    · have hl' : s.loopWq l ≠ [] := by simpa [Pool.setLoop, Pool.insertLoopTail, e] using hl
      simpa [Pool.setLoop, Pool.insertLoopTail, e] using hs l hl'
  | send =>
    intro l hl
    by_cases e : l = w.loop
    · exact .inl (by simp [Pool.setLoop, e])
    · simpa [Pool.setLoop, e] using hs l hl
  | _ =>
    apply Announced.setLoop (hs.of_eq rfl rfl rfl rfl)
    all_goals simp [Pool.unlock, Pool.unlockLoop, Pool.returns, hpc]

theorem LoopTurn.announced (hturn : LoopTurn s l t) (hhome : Homed s) (hs : Announced s) :
    Announced t := by
  cases hturn with
  | callDone => exact hs.of_eq rfl rfl rfl rfl
  | startDone hpc =>
    intro k hk
    by_cases e : k = l
    · exact .inr (.inr (.inr (.inl (by simp [Pool.setLoop, e]))))
    · simpa [Pool.setLoop, e] using hs k hk
  | post w pc next t hpc hturn =>
    have hloop := hturn.loop_eq
    exact (hturn.announced hs).setLoop (by simp [hloop, hpc]) (by simp [hloop, hpc])
      (by simp [hloop, hpc])
  | cancel w pc t hpc hturn =>
    obtain rfl := hhome.cancel l w pc hpc
    exact hturn.announced hpc hs
  | doneLock hpc =>
    intro k hk
    by_cases e : k = l
    · exact .inr (.inr (.inr (.inr (by simp [Pool.setLoop, e]))))
    · simpa [Pool.setLoop, e] using hs k hk
  | doneMove hpc =>
    intro k hk
    by_cases e : k = l
    · simp [Pool.setLoop, e] at hk
    · have hk' : s.loopWq k ≠ [] := by simpa [Pool.setLoop, e] using hk
      simpa [Pool.setLoop, e] using hs k hk'
  | doneUnlock hpc =>
    apply Announced.setLoop (hs.of_eq rfl rfl rfl rfl)
    all_goals simp [Pool.unlockLoop, hpc]

theorem PoolReachable.announced (h : PoolReachable s) : Announced s := by
  apply Transition.Reachable.invariant h
  · rintro _ rfl l hl
    exact absurd rfl hl
  · intro s a t hreach hs hstep
    rcases turn_of_step hstep with ⟨-, hturn⟩ | ⟨-, hreq⟩
    · cases hturn with
      | worker i hturn => exact hturn.announced hs
      | loop l hturn => exact hturn.announced (PoolReachable.books hreach).homed hs
      | cleanup hturn =>
        cases hturn with
        | post pc next t hpc hturn => exact (hturn.announced hs).of_eq rfl rfl rfl rfl
        | join => exact hs.of_eq rfl rfl rfl rfl
    · cases hreq with
      | submit w hpc =>
        exact Announced.setLoop (hs.of_eq rfl rfl rfl rfl) (by simp [hpc]) (by simp [hpc])
          (by simp [hpc])
      | cancel w hpc => exact hs.setLoop (by simp [hpc]) (by simp [hpc]) (by simp [hpc])
      | exit => exact hs.of_eq rfl rfl rfl rfl
      | spurious i hpc => exact hs.wakeWorker hpc

theorem WorkerTurn.not_aborted (hturn : WorkerTurn s i t) (hlegal : ∀ w, Legal (s.view w))
    (hs : ∀ j, s.worker j ≠ .aborted) (j : Fin n) : t.worker j ≠ .aborted := by
  have hj := hs j
  cases hturn with
  | abort w hpc hwork =>
    have hi : (s.view w).workers i = some false := by simp [Pool.view, hpc, WorkerPc.hand]
    exact absurd ((hlegal w).work_eq hi) hwork
  | signal k hpc hk =>
    by_cases e : j = i
    · simp [setWorker, e]
    · by_cases e' : j = k
      · subst e'
        simp [setWorker, e]
      · simp [setWorker, e, e', hj]
  | _ =>
    by_cases e : j = i <;>
    simp [setWorker, Pool.unlock, Pool.unlockLoop, Pool.insertLoopTail, e, hj]

theorem PostTurn.not_aborted {q : Entry Λ} {pc : PostPc} {next : Option PostPc}
    (hturn : PostTurn s tid q pc t next) (hs : ∀ j, s.worker j ≠ .aborted) (j : Fin n) :
    t.worker j ≠ .aborted := by
  have hj := hs j
  cases hturn with
  | signal k hk => by_cases e : j = k <;> simp [setWorker, e, hj]
  | _ => cases q <;> exact hj

theorem PoolReachable.not_aborted (h : PoolReachable s) : ∀ i, s.worker i ≠ .aborted := by
  refine Transition.Reachable.invariant (P := fun s => ∀ i, s.worker i ≠ .aborted) h ?_ ?_
  · rintro _ rfl i
    simp [initPool]
  · intro s a t hreach hs hstep
    rcases turn_of_step hstep with ⟨-, hturn⟩ | ⟨-, hreq⟩
    · cases hturn with
      | worker i hturn => exact hturn.not_aborted (PoolReachable.books hreach).legal hs
      | loop l hturn =>
        cases hturn with
        | post w pc next t hpc hturn => exact hturn.not_aborted hs
        | cancel w pc t hpc hturn => cases hturn <;> exact hs
        | _ => exact hs
      | cleanup hturn =>
        cases hturn with
        | post pc next t hpc hturn => exact hturn.not_aborted hs
        | join => exact hs
    · cases hreq with
      | spurious i hpc =>
        intro j
        have hj := hs j
        by_cases e : j = i <;> simp [setWorker, e, hj]
      | _ => exact hs

/-! ### A pool at rest -/

theorem exists_condSignal (s : Pool n Λ) : ∃ woken t, s.condSignal woken = some t := by
  by_cases h : ∃ j, s.worker j = .blocked
  · obtain ⟨j, hj⟩ := h
    exact ⟨some j, _, if_pos hj⟩
  · push Not at h
    exact ⟨none, _, if_pos h⟩

namespace Pool.AtRest

variable (h : s.AtRest) (hs : PoolReachable s)

include h hs

theorem wqMutex_eq (l : Λ) : s.wqMutex l = none := by
  by_contra hne
  obtain ⟨tid, htid⟩ := Option.ne_none_iff_exists'.mp hne
  have hin := (hs.exclusive.wqMutex l tid).mp htid
  cases tid with
  | worker i =>
    have hnone := h (.worker i none) rfl
    cases hpc : s.worker i <;> simp [Pool.inLoopMutex, hpc, WorkerPc.inLoopMutex] at hin <;>
      simp [step, Pool.workerStep, hpc] at hnone
  | loop k =>
    obtain ⟨rfl, hin⟩ := hin
    have hnone := h (.loop k none) rfl
    cases hpc : s.loop k <;> simp [hpc, LoopPc.inLoopMutex] at hin <;>
      simp [step, Pool.loopStep, hpc] at hnone
    case cancel w pc =>
      cases pc <;> simp [CancelPc.inLoopMutex] at hin <;> simp [Pool.uvWorkCancel] at hnone
      case test => split_ifs at hnone
  | cleanup => exact hin

theorem mutex_eq : s.mutex = none := by
  have hwq := h.wqMutex_eq hs
  obtain ⟨woken, t, hsignal⟩ := exists_condSignal s
  by_contra hne
  obtain ⟨tid, htid⟩ := Option.ne_none_iff_exists'.mp hne
  have hin := (hs.exclusive.mutex tid).mp htid
  cases tid with
  | worker i =>
    have hnone := h (.worker i woken) rfl
    cases hpc : s.worker i <;> simp [Pool.inMutex, hpc, WorkerPc.inMutex] at hin <;>
      simp [step, Pool.workerStep, hpc, hsignal] at hnone
    case test => split at hnone <;> cases hnone
  | loop k =>
    have hnone := h (.loop k woken) rfl
    cases hpc : s.loop k <;> simp [Pool.inMutex, hpc, LoopPc.inMutex] at hin <;>
      simp [step, Pool.loopStep, hpc] at hnone
    case post w pc =>
      cases pc <;> simp [PostPc.inMutex] at hin <;> simp [Pool.post, hsignal] at hnone
    case cancel w pc =>
      cases pc <;> simp [CancelPc.inMutex] at hin <;>
        simp [Pool.uvWorkCancel, Pool.lockLoop, hwq] at hnone
      case test => split_ifs at hnone
      case unlock c => cases c <;> cases hnone
  | cleanup =>
    have hnone := h (.cleanup woken) rfl
    cases hpc : s.cleanup <;> simp [Pool.inMutex, hpc, CleanupPc.inMutex] at hin
    simp [step, Pool.cleanupStep, hpc] at hnone
    case post pc =>
      cases pc <;> simp [PostPc.inMutex] at hin <;> simp [Pool.post, hsignal] at hnone

theorem worker_eq (i : Fin n) : s.worker i = .blocked ∨ s.worker i = .exited := by
  have hm := h.mutex_eq hs
  have hwq := h.wqMutex_eq hs
  obtain ⟨woken, t, hsignal⟩ := exists_condSignal s
  have hnone := h (.worker i woken) rfl
  have hno := hs.not_aborted i
  cases hpc : s.worker i <;>
    simp [step, Pool.workerStep, Pool.lock, Pool.lockLoop, hpc, hm, hwq,
      hsignal] at hnone hno ⊢
  case test => split at hnone <;> cases hnone
  case run w => split_ifs at hnone

theorem loop_eq (l : Λ) :
    s.loop l = .user ∧ s.localWq l = [] ∧ s.wqAsync l = false := by
  have hm := h.mutex_eq hs
  have hwq := h.wqMutex_eq hs
  obtain ⟨woken, t, hsignal⟩ := exists_condSignal s
  have hnone := h (.loop l woken) rfl
  cases hpc : s.loop l <;>
    simp [step, Pool.loopStep, Pool.lockLoop, hpc, hwq] at hnone
  case user =>
    cases hlocal : s.localWq l <;> simp [hlocal] at hnone
    exact ⟨rfl, rfl, hnone⟩
  case post w pc => cases pc <;> simp [Pool.post, Pool.lock, hm, hsignal] at hnone
  case cancel w pc =>
    cases pc <;> simp [Pool.uvWorkCancel, Pool.lock, Pool.lockLoop, hm, hwq] at hnone
    case test => split_ifs at hnone
    case unlock c => cases c <;> cases hnone

theorem cleanup_eq :
    s.cleanup = .running ∨ ∃ k, s.cleanup = .join k ∧ ∀ i : Fin n, i.val = k →
      s.worker i ≠ .exited := by
  have hm := h.mutex_eq hs
  obtain ⟨woken, t, hsignal⟩ := exists_condSignal s
  have hnone := h (.cleanup woken) rfl
  cases hpc : s.cleanup <;> simp [step, Pool.cleanupStep, hpc] at hnone ⊢
  case post pc => cases pc <;> simp [Pool.post, Pool.lock, hm, hsignal] at hnone
  case join k =>
    rintro i rfl
    simpa using hnone

end Pool.AtRest

end LibuvWorks.Threadpool
