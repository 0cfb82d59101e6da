import LibuvWorks.Pool.Locks

/-!
# No lost wake-up

`idle_threads` counts the threads in `uv_cond_wait`. While there is something in `wq`, a
worker is on its way to look at it or a signal is about to be sent, and a worker that
finds the exit message hands the signal on.
-/
namespace LibuvWorks.Threadpool

open Function (update)

variable {n : ℕ} {Λ : Type*} [DecidableEq Λ]

/-- The worker is in `uv_cond_wait`. -/
def WorkerPc.waits : WorkerPc Λ → ℕ
  | .blocked | .signalled => 1
  | _ => 0

/-- The worker has left its loop, or will not look at `wq` again before it does. -/
def WorkerPc.left : WorkerPc Λ → Prop
  | .leave | .exited => True
  | _ => False

def WorkerPc.sawExit : WorkerPc Λ → Prop
  | .signalNext | .leave | .exited => True
  | _ => False

/-- The worker will look at `wq`, or has just found the exit message there. -/
def WorkerPc.awake (pc : WorkerPc Λ) : Prop := pc ≠ .blocked ∧ ¬ pc.left

/-- A thread in `post` is about to signal. -/
def Pool.SignalPending (s : Pool n Λ) : Prop :=
  (∃ l w, s.loop l = .post w .signal) ∨ s.cleanup = .post .signal

def CleanupPc.posted : CleanupPc → Prop
  | .running | .post .lock | .post .insert => False
  | .post .signal | .post .unlock | .join _ => True

structure WakeUp (s : Pool n Λ) : Prop where
  idleThreads : s.idleThreads = ∑ i, (s.worker i).waits
  wake : s.wq ≠ [] → (∃ i, (s.worker i).awake) ∨ s.SignalPending ∨ ∀ i, (s.worker i).left
  exit : ∀ i, (s.worker i).sawExit → s.wq.head? = some .exitMessage
  posted : .exitMessage ∈ s.wq ↔ s.cleanup.posted

variable {s t : Pool n Λ} {w : Work Λ} {i : Fin n} {l : Λ} {tid : Tid n Λ} {q : Entry Λ}
  {pc : PostPc} {next : Option PostPc}

section

omit [DecidableEq Λ]

theorem waits_le (i : Fin n) : (s.worker i).waits ≤ ∑ j, (s.worker j).waits :=
  Finset.single_le_sum (f := fun j => (s.worker j).waits) (fun _ _ => Nat.zero_le _)
    (Finset.mem_univ i)

theorem awake_or_left (hnone : ∀ i, s.worker i ≠ .blocked) :
    (∃ i, (s.worker i).awake) ∨ ∀ i, (s.worker i).left := by
  by_cases h : ∃ i, (s.worker i).awake
  · exact .inl h
  · right
    intro i
    by_contra hleft
    exact h ⟨i, hnone i, hleft⟩

theorem WakeUp.not_blocked_of_idle (h : WakeUp s) (hidle : s.idleThreads = 0) :
    s.worker i ≠ .blocked := by
  intro hblocked
  have hle := waits_le (s := s) i
  rw [← h.idleThreads, hidle, hblocked] at hle
  exact absurd hle (by simp [WorkerPc.waits])

theorem WakeUp.setWorker {pc : WorkerPc Λ} (h : WakeUp s)
    (hwaits : pc.waits = (s.worker i).waits) (hawake : pc.awake)
    (hexit : pc.sawExit → s.wq.head? = some .exitMessage) : WakeUp (s.setWorker i pc) where
  idleThreads := by
    have hsum := Ranking.sum_update_add WorkerPc.waits (f := s.worker) (i := i) rfl hwaits
    have hidle := h.idleThreads
    simp only [Pool.setWorker]
    omega
  wake _ := .inl ⟨i, by simpa [Pool.setWorker] using hawake⟩
  exit j hj := by
    by_cases e : j = i
    · subst e
      exact hexit (by simpa [Pool.setWorker] using hj)
    · exact h.exit j (by simpa [Pool.setWorker, e] using hj)
  posted := h.posted

theorem WakeUp.of_eq (h : WakeUp s) (hidle : t.idleThreads = s.idleThreads) (hwq : t.wq = s.wq)
    (hworker : t.worker = s.worker) (hloop : t.loop = s.loop) (hcleanup : t.cleanup = s.cleanup) :
    WakeUp t := by
  constructor
  · rw [hidle, hworker]
    exact h.idleThreads
  · rw [hwq, hworker, Pool.SignalPending, hloop, hcleanup]
    exact h.wake
  · rw [hwq, hworker]
    exact h.exit
  · rw [hwq, hcleanup]
    exact h.posted

theorem WakeUp.wakeWorker (h : WakeUp s) (hblocked : s.worker i = .blocked) :
    WakeUp (s.setWorker i .signalled) :=
  h.setWorker (by simp [hblocked, WorkerPc.waits]) (by simp [WorkerPc.awake, WorkerPc.left])
    (by simp [WorkerPc.sawExit])

theorem WakeUp.setWorker_left {pc : WorkerPc Λ} (h : WakeUp s)
    (hwaits : pc.waits = (s.worker i).waits) (hexit : (s.worker i).sawExit)
    (hwake : (∃ j ≠ i, (s.worker j).awake) ∨ s.SignalPending ∨
      ∀ j, ((s.setWorker i pc).worker j).left) : WakeUp (s.setWorker i pc) where
  idleThreads := by
    have hsum := Ranking.sum_update_add WorkerPc.waits (f := s.worker) (i := i) rfl hwaits
    have hidle := h.idleThreads
    simp only [Pool.setWorker]
    omega
  wake _ := by
    rcases hwake with ⟨j, hne, hj⟩ | hpending | hleft
    · exact .inl ⟨j, by simpa [Pool.setWorker, hne] using hj⟩
    · exact .inr (.inl hpending)
    · exact .inr (.inr hleft)
  exit j hj := by
    by_cases e : j = i
    · exact h.exit i hexit
    · exact h.exit j (by simpa [Pool.setWorker, e] using hj)
  posted := h.posted

end

theorem WorkerTurn.wakeUp (hturn : WorkerTurn s i t) (hs : WakeUp s) : WakeUp t := by
  cases hturn with
  | wait hpc hwq =>
    refine ⟨?_, fun hne => absurd hwq hne, ?_, hs.posted⟩
    · have hsum := Ranking.sum_update_add WorkerPc.waits (f := s.worker) (i := i) (x := .blocked)
        (a := 0) (b := 1) (by rw [hpc]; rfl) rfl
      have hidle := hs.idleThreads
      simp only [Pool.setWorker]
      omega
    · intro j hj
      by_cases e : j = i
      · simp [Pool.setWorker, e, WorkerPc.sawExit] at hj
      · exact hs.exit j (by simpa [Pool.setWorker, e] using hj)
  | seeExit wq hpc hwq =>
    exact hs.setWorker (by simp [hpc, WorkerPc.waits]) (by simp [WorkerPc.awake, WorkerPc.left])
      fun _ => by simp [hwq]
  | take w wq hpc hwq =>
    refine ⟨?_, fun _ => .inl ⟨i, ?_⟩, ?_, ?_⟩
    · have hsum := Ranking.sum_update_add WorkerPc.waits (f := s.worker) (i := i) (x := .unlock w)
        (a := 0) (b := 0) (by rw [hpc]; rfl) rfl
      have hidle := hs.idleThreads
      simp only [Pool.setWorker]
      omega
    · simp [Pool.setWorker, WorkerPc.awake, WorkerPc.left]
    · intro j hj
      by_cases e : j = i
      · simp [Pool.setWorker, e, WorkerPc.sawExit] at hj
      · have hhead := hs.exit j (by simpa [Pool.setWorker, e] using hj)
        simp [hwq] at hhead
    · have hposted := hs.posted
      simpa [Pool.setWorker, hwq] using hposted
  | resume hpc =>
    refine ⟨?_, fun _ => .inl ⟨i, ?_⟩, ?_, hs.posted⟩
    · have hsum := Ranking.sum_update_add WorkerPc.waits (f := s.worker) (i := i) (x := .test)
        (a := 1) (b := 0) (by rw [hpc]; rfl) rfl
      have hidle := hs.idleThreads
      simp only [Pool.setWorker]
      omega
    · simp [Pool.setWorker, WorkerPc.awake, WorkerPc.left]
    · intro j hj
      by_cases e : j = i
      · simp [Pool.setWorker, e, WorkerPc.sawExit] at hj
      · exact hs.exit j (by simpa [Pool.setWorker, e] using hj)
  | signal j hpc hj =>
    have hne : i ≠ j := by
      rintro rfl
      rw [hpc] at hj
      cases hj
    refine (hs.wakeWorker hj).setWorker_left ?_ ?_ (.inl ⟨j, hne.symm, ?_⟩)
    · simp [Pool.setWorker, hne, hpc, WorkerPc.waits]
    · simp [Pool.setWorker, hne, hpc, WorkerPc.sawExit]
    · simp [Pool.setWorker, WorkerPc.awake, WorkerPc.left]
  | signalNone hpc hnone =>
    apply hs.setWorker_left (by simp [hpc, WorkerPc.waits]) (by simp [hpc, WorkerPc.sawExit])
    by_cases h : ∃ j ≠ i, (s.worker j).awake
    · exact .inl h
    · refine .inr (.inr fun j => ?_)
      by_cases e : j = i
      · simp [Pool.setWorker, e, WorkerPc.left]
      · by_contra hleft
        exact h ⟨j, e, hnone j, by simpa [Pool.setWorker, e] using hleft⟩
  | leave hpc =>
    have hne : s.wq ≠ [] := by
      intro hwq
      have hhead := hs.exit i (by simp [hpc, WorkerPc.sawExit])
      simp [hwq] at hhead
    apply (WakeUp.of_eq (t := s.unlock) hs rfl rfl rfl rfl rfl).setWorker_left
    · simp [Pool.unlock, hpc, WorkerPc.waits]
    · simp [Pool.unlock, hpc, WorkerPc.sawExit]
    · rcases hs.wake hne with ⟨j, hj⟩ | hpending | hleft
      · refine .inl ⟨j, ?_, hj⟩
        rintro rfl
        exact hj.2 (by simp [hpc, WorkerPc.left])
      · exact .inr (.inl hpending)
      · refine .inr (.inr fun j => ?_)
        by_cases e : j = i
        · simp [Pool.setWorker, e, WorkerPc.left]
        · simpa [Pool.setWorker, Pool.unlock, e] using hleft j
  | lock hpc | unlock _ hpc | run _ hpc | abort _ hpc | lockLoop _ hpc | insert _ hpc
  | send _ hpc | unlockLoop _ hpc =>
    refine WakeUp.setWorker (hs.of_eq rfl rfl rfl rfl rfl) ?_ ?_ ?_
    · simp [Pool.unlock, Pool.unlockLoop, Pool.insertLoopTail, hpc, WorkerPc.waits]
    · simp [WorkerPc.awake, WorkerPc.left]
    · simp [WorkerPc.sawExit]

/-! ### Turns of the other threads -/

theorem pending_setLoop {pc : LoopPc Λ} (hpc : ∀ w, s.loop l ≠ .post w .signal)
    (h : s.SignalPending) : (s.setLoop l pc).SignalPending := by
  rcases h with ⟨k, w, hk⟩ | h
  · have hne : k ≠ l := by
      rintro rfl
      exact hpc w hk
    exact .inl ⟨k, w, by simpa [Pool.setLoop, hne] using hk⟩
  · exact .inr h

theorem WakeUp.setLoop {pc : LoopPc Λ} (h : WakeUp s) (hpc : ∀ w, s.loop l ≠ .post w .signal) :
    WakeUp (s.setLoop l pc) where
  idleThreads := h.idleThreads
  wake hne := (h.wake hne).imp_right (Or.imp_left (pending_setLoop hpc))
  exit := h.exit
  posted := h.posted

theorem WakeUp.remove (h : WakeUp s) (w : Work Λ) : WakeUp (s.remove w) where
  idleThreads := h.idleThreads
  wake hne := h.wake fun hwq => hne (by simp [Pool.remove, hwq])
  exit j hj := by
    have hhead := h.exit j hj
    obtain ⟨wq, hwq⟩ := List.head?_eq_some_iff.mp hhead
    simp [Pool.remove, hwq]
  posted := by
    have hmem : .exitMessage ∈ s.wq.erase (.item w) ↔ .exitMessage ∈ s.wq :=
      List.mem_erase_of_ne (by simp)
    exact hmem.trans h.posted

theorem CancelTurn.wakeUp {pc : CancelPc} (hturn : CancelTurn s w pc t)
    (hpc : s.loop w.loop = .cancel w pc) (hs : WakeUp s) : WakeUp t := by
  have hno : ∀ w', s.loop w.loop ≠ .post w' .signal := by simp [hpc]
  cases hturn with
  | remove => exact (hs.remove w).setLoop hno
  | _ => exact WakeUp.setLoop (hs.of_eq rfl rfl rfl rfl rfl) hno

@[simp] theorem insertTail_wq (q : Entry Λ) : (s.insertTail q).wq = s.wq ++ [q] := by
  cases q <;> rfl

theorem PostTurn.idleThreads (hturn : PostTurn s tid q pc t next) (hs : WakeUp s) :
    t.idleThreads = ∑ i, (t.worker i).waits := by
  cases hturn with
  | signal j hj => exact (hs.wakeWorker hj).idleThreads
  | _ => cases q <;> exact hs.idleThreads

theorem PostTurn.exit
    (hturn : PostTurn s tid q pc t next) (hs : WakeUp s) (hi : (t.worker i).sawExit) :
    t.wq.head? = some .exitMessage := by
  cases hturn with
  | signal j hj => exact (hs.wakeWorker hj).exit i hi
  | insertSignal | insertQuiet =>
    have hhead := hs.exit i (by cases q <;> exact hi)
    simp [insertTail_wq, List.head?_append, hhead]
  | _ => exact hs.exit i hi

/-- After a turn of `post`, a worker is awake, a signal is due, or all workers have left. -/
theorem PostTurn.wake (hturn : PostTurn s tid q pc t next) (hs : WakeUp s) (hne : t.wq ≠ []) :
    (∃ i, (t.worker i).awake) ∨ (pc ≠ .signal ∧ s.SignalPending) ∨ next = some .signal ∨
      ∀ i, (t.worker i).left := by
  cases hturn with
  | insertSignal => exact .inr (.inr (.inl rfl))
  | insertQuiet hidle =>
    rcases awake_or_left (s := s) fun i => hs.not_blocked_of_idle hidle with hawake | hleft
    · exact .inl (by cases q <;> exact hawake)
    · exact .inr (.inr (.inr (by cases q <;> exact hleft)))
  | signal j hj => exact .inl ⟨j, by simp [Pool.setWorker, WorkerPc.awake, WorkerPc.left]⟩
  | signalNone hnone =>
    rcases awake_or_left hnone with hawake | hleft
    · exact .inl hawake
    · exact .inr (.inr (.inr hleft))
  | lock | unlock =>
    rcases hs.wake hne with hawake | hpending | hleft
    · exact .inl hawake
    · exact .inr (.inl ⟨by simp, hpending⟩)
    · exact .inr (.inr (.inr hleft))

theorem PostTurn.wq (hturn : PostTurn s tid q pc t next) :
    (pc ≠ .insert ∧ t.wq = s.wq) ∨ (pc = .insert ∧ t.wq = s.wq ++ [q]) := by
  cases hturn <;> simp [Pool.setWorker, Pool.unlock]

theorem PostTurn.cleanup_eq (hturn : PostTurn s tid q pc t next) : t.cleanup = s.cleanup := by
  cases hturn <;> cases q <;> rfl

theorem LoopTurn.wakeUp (hturn : LoopTurn s l t) (hhome : Homed s) (hs : WakeUp s) :
    WakeUp t := by
  cases hturn with
  | callDone => exact hs.of_eq rfl rfl rfl rfl rfl
  | startDone hpc | doneLock hpc | doneMove hpc | doneUnlock hpc =>
    exact WakeUp.setLoop (hs.of_eq rfl rfl rfl rfl rfl) (by simp [Pool.unlockLoop, hpc])
  | cancel w pc t hpc hturn =>
    obtain rfl := hhome.cancel l w pc hpc
    exact hturn.wakeUp hpc hs
  | post w pc next t hpc hturn =>
    refine ⟨hturn.idleThreads hs, fun hne => ?_, fun i hi => hturn.exit hs hi, ?_⟩
    · rcases hturn.wake hs hne with hawake | ⟨hsignal, hpending⟩ | rfl | hleft
      · exact .inl hawake
      · refine .inr (.inl (pending_setLoop (s := t) (l := l) (fun w' => ?_) ?_))
        · rw [hturn.loop_eq, hpc]
          simp [hsignal]
        · rw [Pool.SignalPending, hturn.loop_eq, hturn.cleanup_eq]
          exact hpending
      · exact .inr (.inl (.inl ⟨l, w, by simp [Pool.setLoop]⟩))
      · exact .inr (.inr hleft)
    · have hmem : .exitMessage ∈ t.wq ↔ .exitMessage ∈ s.wq := by
        rcases hturn.wq with ⟨-, h⟩ | ⟨-, h⟩ <;> simp [h]
      show .exitMessage ∈ t.wq ↔ t.cleanup.posted
      rw [hmem, hturn.cleanup_eq]
      exact hs.posted

theorem CleanupTurn.wakeUp (hturn : CleanupTurn s t) (hs : WakeUp s) : WakeUp t := by
  cases hturn with
  | post pc next t hpc hturn =>
    refine ⟨hturn.idleThreads hs, fun hne => ?_, fun i hi => hturn.exit hs hi, ?_⟩
    · rcases hturn.wake hs hne with hawake | ⟨hsignal, hpending⟩ | rfl | hleft
      · exact .inl hawake
      · refine .inr (.inl (.inl ?_))
        rw [hturn.loop_eq]
        rcases hpending with hloop | hcleanup
        · exact hloop
        · rw [hpc] at hcleanup
          simp [hsignal] at hcleanup
      · exact .inr (.inl (.inr rfl))
      · exact .inr (.inr hleft)
    · have hposted := hs.posted
      cases hturn <;> simp_all [CleanupPc.posted, Pool.setWorker, Pool.unlock]
  | join k hpc hexited =>
    refine { hs with wake := fun hne => ?_, posted := ?_ }
    · refine (hs.wake hne).imp_right (Or.imp_left (Or.imp_right fun h => ?_))
      rw [hpc] at h
      cases h
    · have hposted := hs.posted
      rw [hpc] at hposted
      exact hposted

theorem Request.wakeUp (hreq : Request s t) (hs : WakeUp s) : WakeUp t := by
  cases hreq with
  | submit w hpc =>
    exact WakeUp.setLoop (hs.of_eq rfl rfl rfl rfl rfl) (by simp [hpc])
  | cancel w hpc => exact hs.setLoop (by simp [hpc])
  | exit hpc =>
    refine { hs with wake := fun hne => ?_, posted := ?_ }
    · refine (hs.wake hne).imp_right (Or.imp_left (Or.imp_right fun h => ?_))
      rw [hpc] at h
      cases h
    · have hposted := hs.posted
      rw [hpc] at hposted
      exact hposted
  | spurious i hpc => exact hs.wakeWorker hpc

theorem PoolReachable.wakeUp (h : PoolReachable s) : WakeUp s := by
  apply Transition.Reachable.invariant h
  · rintro _ rfl
    exact ⟨by simp [initPool, WorkerPc.waits], fun hne => absurd rfl hne,
      by simp [initPool, WorkerPc.sawExit], by simp [initPool, CleanupPc.posted]⟩
  · intro s a t hreach hs hstep
    rcases turn_of_step hstep with ⟨-, hturn⟩ | ⟨-, hreq⟩
    · cases hturn with
      | worker i hturn => exact hturn.wakeUp hs
      | loop l hturn => exact hturn.wakeUp (PoolReachable.books hreach).homed hs
      | cleanup hturn => exact hturn.wakeUp hs
    · exact hreq.wakeUp hs

end LibuvWorks.Threadpool
