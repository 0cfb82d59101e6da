import LibuvWorks.Pool.WakeUp

/-!
# Every turn is progress

The rank of a pool pays for the turns its threads can still take: a queued item for the
turns of the worker that takes it, a program point for those up to the end of the function.
A turn lowers the rank, a request of the program raises it.
-/
namespace LibuvWorks.Threadpool

open List Option Bool
open Function (update update_self)
open Pool (setLoop setWorker)

variable {n : ℕ} {Λ : Type*} [DecidableEq Λ]

/-- The rank of a worker, given the one of a blocked worker. -/
def WorkerPc.rank (b : ℕ) : WorkerPc Λ → ℕ
  | .exited | .aborted => 0
  | .leave => 1
  | .signalNext => 4
  | .blocked => b
  | .test => 11
  | .lock | .signalled => 12
  | .unlockLoop _ => 13
  | .send _ => 18
  | .insert _ => 20
  | .lockLoop _ => 21
  | .run _ => 22
  | .unlock _ => 23

def PostPc.rank : PostPc → ℕ
  | .unlock => 1
  | .signal => 4
  | .insert => 18
  | .lock => 19

def CancelPc.rank : CancelPc → ℕ
  | .finish => 1
  | .send => 6
  | .insert => 8
  | .relock => 9
  | .mark => 10
  | .unlock _ => 11
  | .unlockLoop _ => 12
  | .test => 13
  | .lockLoop => 14
  | .lock => 15

def LoopPc.rank : LoopPc Λ → ℕ
  | .user => 0
  | .post _ pc => pc.rank
  | .cancel _ pc => pc.rank
  | .doneUnlock => 1
  | .doneMove => 2
  | .doneLock => 3

def CleanupPc.rank (n : ℕ) : CleanupPc → ℕ
  | .running => 0
  | .post pc => pc.rank + n
  | .join k => n - k

def Pool.loopRank (s : Pool n Λ) (l : Λ) : ℕ :=
  (s.loop l).rank + (s.loopWq l).length + (s.localWq l).length + 4 * (s.wqAsync l).toNat

def Pool.rank [Fintype Λ] (s : Pool n Λ) (b : ℕ) : ℕ :=
  (∑ i, (s.worker i).rank b) + (∑ l, s.loopRank l) + 13 * s.wq.length + s.cleanup.rank n

open Pool (loopRank rank)

variable [Fintype Λ] {s t : Pool n Λ} {w : Work Λ} {i : Fin n} {l : Λ} {tid : Tid n Λ} {b : ℕ}

omit [DecidableEq Λ] in
theorem rank_lt_worker (i : Fin n) (hother : ∀ j, j ≠ i → t.worker j = s.worker j)
    (hloops : ∀ l, t.loopRank l = s.loopRank l)
    (hlt : (t.worker i).rank b + 13 * t.wq.length + t.cleanup.rank n <
      (s.worker i).rank b + 13 * s.wq.length + s.cleanup.rank n) : t.rank b < s.rank b := by
  have hW := Ranking.sum_add_of_eq_off (f := fun j => (t.worker j).rank b)
    (g := fun j => (s.worker j).rank b) i fun j hj => by rw [hother j hj]
  have hL : ∑ l, t.loopRank l = ∑ l, s.loopRank l := Finset.sum_congr rfl fun l _ => hloops l
  unfold rank
  omega

theorem rank_lt_loop (l : Λ) (hworker : t.worker = s.worker)
    (hother : ∀ k, k ≠ l → t.loopRank k = s.loopRank k)
    (hlt : t.loopRank l + 13 * t.wq.length + t.cleanup.rank n <
      s.loopRank l + 13 * s.wq.length + s.cleanup.rank n) : t.rank b < s.rank b := by
  have hL := Ranking.sum_add_of_eq_off (f := t.loopRank) (g := s.loopRank) l hother
  unfold rank
  rw [hworker]
  omega

theorem rank_lt_both (i : Fin n) (l : Λ) (hworker : ∀ j, j ≠ i → t.worker j = s.worker j)
    (hloop : ∀ k, k ≠ l → t.loopRank k = s.loopRank k)
    (hlt : (t.worker i).rank b + t.loopRank l + 13 * t.wq.length + t.cleanup.rank n <
      (s.worker i).rank b + s.loopRank l + 13 * s.wq.length + s.cleanup.rank n) :
    t.rank b < s.rank b := by
  have hW := Ranking.sum_add_of_eq_off (f := fun j => (t.worker j).rank b)
    (g := fun j => (s.worker j).rank b) i fun j hj => by rw [hworker j hj]
  have hL := Ranking.sum_add_of_eq_off (f := t.loopRank) (g := s.loopRank) l hloop
  unfold rank
  omega

/-- A worker can wait only for an empty `wq`, and then the rank of a blocked worker has to be
below that of one that looks at `wq`. -/
theorem WorkerTurn.rank_lt (hturn : WorkerTurn s i t) (hb : 10 ≤ b) (hwait : b = 10 ∨ s.wq ≠ []) :
    t.rank b < s.rank b := by
  have hne : ∀ pc : WorkerPc Λ, ∀ j, j ≠ i → (s.setWorker i pc).worker j = s.worker j := by
    intro pc j hj
    simp [setWorker, hj]
  cases hturn with
  | signal j hpc hj =>
    have hij : i ≠ j := by
      rintro rfl
      rw [hpc] at hj
      cases hj
    have h1 := Ranking.sum_update_add (WorkerPc.rank b) (f := s.worker) (i := j) (x := .signalled)
      (a := b) (b := 12) (by rw [hj]; rfl) rfl
    have h2 := Ranking.sum_update_add (WorkerPc.rank b) (f := update s.worker j .signalled)
      (i := i) (x := .leave) (a := 4) (b := 1) (by rw [Function.update_of_ne hij, hpc]; rfl) rfl
    have hL : ∑ l, ((s.setWorker j .signalled).setWorker i .leave).loopRank l =
        ∑ l, s.loopRank l := rfl
    unfold rank
    rw [hL]
    simp only [setWorker]
    omega
  | wait hpc hwq =>
    apply rank_lt_worker i (hne _) (fun _ => rfl)
    have hb' : b = 10 := hwait.resolve_right fun h => h hwq
    simp [setWorker, hpc, WorkerPc.rank, hb']
  | take w wq hpc hwq =>
    refine rank_lt_worker i (hne _) (fun _ => rfl) ?_
    simp only [setWorker, hpc, update_self, WorkerPc.rank, hwq, length_cons]
    omega
  | insert w hpc | send w hpc =>
    refine rank_lt_both i w.loop (hne _) (fun k hk => ?_) ?_
    · simp [loopRank, setWorker, Pool.insertLoopTail, hk]
    · simp only [setWorker, loopRank, Pool.insertLoopTail, hpc, update_self,
        WorkerPc.rank, length_append, length_singleton, toNat_true]
      omega
  | _ =>
    apply rank_lt_worker i (hne _) (fun _ => rfl)
    simp_all [setWorker, Pool.unlock, Pool.unlockLoop, WorkerPc.rank]

omit [Fintype Λ] in
theorem loopRank_setLoop_of_ne {pc : LoopPc Λ} {k : Λ} (h : k ≠ l) :
    (s.setLoop l pc).loopRank k = s.loopRank k := by
  simp [loopRank, setLoop, h]

theorem CancelTurn.rank_lt {pc : CancelPc} (hturn : CancelTurn s w pc t)
    (hpc : s.loop w.loop = .cancel w pc) : t.rank b < s.rank b := by
  cases hturn with
  | remove =>
    refine rank_lt_loop w.loop rfl (fun k hk => ?_) ?_
    · simp [loopRank, setLoop, Pool.remove, hk]
    · have hq := length_erase_le (a := Entry.item w) (l := s.wq)
      have hf := length_erase_le (a := w) (l := s.loopWq w.loop)
      have ht := length_erase_le (a := w) (l := s.localWq w.loop)
      simp only [loopRank, setLoop, Pool.remove, hpc, update_self,
        LoopPc.rank, CancelPc.rank]
      omega
  | unlockLoop cancelled =>
    refine rank_lt_loop w.loop rfl (fun k hk => ?_) ?_
    · simp [loopRank, setLoop, Pool.unlockLoop, hk]
    · simp [loopRank, setLoop, Pool.unlockLoop, hpc, LoopPc.rank, CancelPc.rank]
  | insert | send =>
    refine rank_lt_loop w.loop rfl (fun k hk => ?_) ?_
    · simp [loopRank, setLoop, Pool.insertLoopTail, hk]
    · simp only [loopRank, setLoop, Pool.insertLoopTail, hpc, update_self,
        LoopPc.rank, CancelPc.rank, length_append, length_singleton, toNat_true]
      omega
  | _ =>
    refine rank_lt_loop w.loop rfl (fun k hk => ?_) ?_
    · simp [loopRank, setLoop, Pool.unlock, Pool.unlockLoop, Pool.returns, hk]
    · simp [loopRank, setLoop, Pool.unlock, Pool.unlockLoop, Pool.returns, hpc,
        LoopPc.rank, CancelPc.rank]

theorem LoopTurn.rank_lt (hturn : LoopTurn s l t) (hhome : Homed s) (hb : 10 ≤ b) :
    t.rank b < s.rank b := by
  cases hturn with
  | callDone w ws hpc hlocal =>
    refine rank_lt_loop l rfl (fun k hk => ?_) ?_
    · simp [loopRank, hk]
    · simp [loopRank, hlocal]
  | startDone hpc hlocal hasync =>
    refine rank_lt_loop l rfl (fun k hk => ?_) ?_
    · simp [loopRank, setLoop, hk]
    · simp only [loopRank, setLoop, hpc, hasync, update_self, LoopPc.rank,
        toNat_true, toNat_false]
      omega
  | doneMove hpc =>
    have hempty := hhome.drained l (.inr hpc)
    refine rank_lt_loop l rfl (fun k hk => ?_) ?_
    · simp [loopRank, setLoop, hk]
    · simp only [loopRank, setLoop, hpc, hempty, update_self, LoopPc.rank,
        length_nil]
      omega
  | doneLock hpc | doneUnlock hpc =>
    refine rank_lt_loop l rfl (fun k hk => loopRank_setLoop_of_ne hk) ?_
    simp [loopRank, setLoop, Pool.unlockLoop, hpc, LoopPc.rank]
  | cancel w pc t hpc hturn =>
    obtain rfl := hhome.cancel l w pc hpc
    exact hturn.rank_lt hpc
  | post w pc next t hpc hturn =>
    cases hturn with
    | signal j hj =>
      refine rank_lt_both j l (fun k hk => ?_) (fun k hk => loopRank_setLoop_of_ne hk) ?_
      · simp [setLoop, setWorker, hk]
      · simp only [loopRank, setLoop, setWorker, hpc, hj, update_self,
          LoopPc.rank, PostPc.rank, WorkerPc.rank, elim_some]
        omega
    | insertSignal | insertQuiet =>
      refine rank_lt_loop l rfl (fun k hk => loopRank_setLoop_of_ne hk) ?_
      simp only [loopRank, setLoop, Pool.insertTail, hpc, update_self,
        LoopPc.rank, PostPc.rank, elim_some, length_append, length_singleton]
      omega
    | _ =>
      refine rank_lt_loop l rfl (fun k hk => loopRank_setLoop_of_ne hk) ?_
      simp [loopRank, setLoop, Pool.unlock, hpc, LoopPc.rank, PostPc.rank]

theorem CleanupTurn.rank_lt (hturn : CleanupTurn s t) (hb : 10 ≤ b) : t.rank b < s.rank b := by
  cases hturn with
  | post pc next t hpc hturn =>
    cases hturn with
    | signal j hj =>
      refine rank_lt_worker j (fun k hk => ?_) (fun _ => rfl) ?_
      · simp [setWorker, hk]
      · simp only [setWorker, hpc, hj, update_self, WorkerPc.rank, CleanupPc.rank,
          PostPc.rank, elim_some]
        omega
    | _ =>
      simp only [rank, loopRank, Pool.unlock, Pool.insertTail, hpc, CleanupPc.rank,
        PostPc.rank, elim_some, elim_none, length_append, length_singleton]
      omega
  | join k hpc =>
    simp only [rank, loopRank, hpc, CleanupPc.rank]
    omega

theorem sum_loopRank_setLoop {pc : LoopPc Λ} (pc' : LoopPc Λ) (hpc : s.loop l = pc) :
    (∑ k, (s.setLoop l pc').loopRank k) + pc.rank = (∑ k, s.loopRank k) + pc'.rank := by
  have h := Ranking.sum_add_of_eq_off (f := (s.setLoop l pc').loopRank) (g := s.loopRank) l
    fun k hk => loopRank_setLoop_of_ne hk
  have hnew : (s.setLoop l pc').loopRank l + pc.rank = s.loopRank l + pc'.rank := by
    simp only [loopRank, setLoop, update_self, hpc]
    omega
  omega

/-- What the threads still have to do for a request; nothing for a turn of a thread, and for
a wake-up without a signal if blocked workers rank high. -/
def Action.cost (n b : ℕ) : Action n Λ → ℕ
  | .submit _ => 20
  | .cancel _ => 16
  | .exit => n + 20
  | .spurious _ => 13 - b
  | .worker .. | .loop .. | .cleanup .. => 0

theorem rank_step {a : Action n Λ} (hstep : s.step a = some t) (hhome : Homed s) (hb : 10 ≤ b)
    (hb' : b ≤ 13) (hwait : b = 10 ∨ s.wq ≠ []) : t.rank b + 1 ≤ s.rank b + a.cost n b := by
  cases a <;> simp only [Pool.step, ite_none_right_eq_some, Option.some.injEq] at hstep
  case worker i woken => exact (workerTurn_of_step hstep).rank_lt hb hwait
  case loop l woken => exact (loopTurn_of_step hstep).rank_lt hhome hb
  case cleanup woken => exact (cleanupTurn_of_step hstep).rank_lt hb
  case submit w =>
    obtain ⟨⟨hpc, -⟩, rfl⟩ := hstep
    have hL : ∑ l, (s.uvWorkSubmit w).loopRank l + 0 = ∑ l, s.loopRank l + 19 :=
      sum_loopRank_setLoop (s := { s with work := _, submitted := _ }) (.post w .lock) hpc
    simp only [rank, Action.cost]
    simp only [Pool.uvWorkSubmit, setLoop] at hL ⊢
    omega
  case cancel w =>
    obtain ⟨⟨hpc, -⟩, rfl⟩ := hstep
    have hL : ∑ l, (s.setLoop w.loop (.cancel w .lock)).loopRank l + 0 = ∑ l, s.loopRank l + 15 :=
      sum_loopRank_setLoop (.cancel w .lock) hpc
    simp only [rank, Action.cost]
    simp only [setLoop] at hL ⊢
    omega
  case exit =>
    obtain ⟨hpc, rfl⟩ := hstep
    simp only [rank, Action.cost, loopRank, hpc, CleanupPc.rank, PostPc.rank]
    omega
  case spurious i =>
    obtain ⟨hpc, rfl⟩ := hstep
    have hW := Ranking.sum_update_add (WorkerPc.rank b) (f := s.worker) (i := i) (x := .signalled)
      (a := b) (b := 12) (by rw [hpc]; rfl) rfl
    have hL : ∑ l, (s.setWorker i .signalled).loopRank l = ∑ l, s.loopRank l := rfl
    unfold rank
    rw [hL]
    simp only [Action.cost, setWorker]
    omega

end LibuvWorks.Threadpool
