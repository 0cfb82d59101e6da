import LibuvWorks.Pool.Progress
import LibuvWorks.Pool.Rest

/-!
# What the thread pool does with its work

For every interleaving of the workers, the loops and `cleanup`: each work item is in one
place, it runs or is cancelled and its callback is called once, no wake-up is lost, and
after the exit message every worker leaves.
-/
namespace LibuvWorks.Threadpool

open List
open Function (update)
open Transition

variable {n : ℕ} {Λ : Type*} [DecidableEq Λ]

/-! ### Places and outcomes -/

/-- In how many places an item is: in one of the queues, with a worker, on its way into or out
of a queue, or done. -/
def View.places (v : View n) : ℕ :=
  v.queued + v.finished + v.taken + v.done.length + (∑ i, (v.workers i).isSome.toNat) +
    if v.hand = .posting ∨ v.hand = .cancelling ∨ v.hand = .marked then 1 else 0

/-- The work function was called once, and `done` once with status 0. -/
def Pool.Executed (s : Pool n Λ) (w : Work Λ) : Prop :=
  s.ran w = 1 ∧ s.done w = [0] ∧ AllBusy (s.returned w)

/-- The work function was not called, `uv__work_cancel` returned 0 whenever it was called, and
`done` was called once with `UV_ECANCELED`. -/
def Pool.Cancelled (s : Pool n Λ) (w : Work Λ) : Prop :=
  s.ran w = 0 ∧ s.done w = [ecanceled] ∧ s.returned w ≠ [] ∧ AllZero (s.returned w)

def Pool.Taken (s : Pool n Λ) (w : Work Λ) : Prop :=
  (∃ i, (s.worker i).hand w ≠ none) ∨ s.ran w ≠ 0

/-- From its test on, `uv__work_cancel` gives back the mutexes and returns `UV_EBUSY`. -/
def Pool.Refuses (s : Pool n Λ) (w : Work Λ) : Prop :=
  s.uvWorkCancel w .test = some (s.setLoop w.loop (.cancel w (.unlockLoop false))) ∧
  ∀ t : Pool n Λ,
    t.uvWorkCancel w (.unlockLoop false) =
      some ((t.unlockLoop w.loop).setLoop w.loop (.cancel w (.unlock false))) ∧
    t.uvWorkCancel w (.unlock false) = some ((t.unlock.returns w ebusy).setLoop w.loop .user)

variable {s t : Pool n Λ} {w : Work Λ} {v : View n} {i : Fin n} {l : Λ} {a : Action n Λ}

theorem Legal.places_eq (h : Legal v) (hold : v.submitted = true) : v.places = 1 := by
  cases h with
  | fresh => cases hold
  | working hand i ran returned hhand =>
    have hsum := Ranking.sum_update_add (fun o : Option Bool => o.isSome.toNat)
      (f := fun _ : Fin n => none) (i := i) (x := some ran) (a := 0) (b := 1) rfl rfl
    simp only [View.places, length_nil]
    rcases hhand with rfl | rfl | rfl <;> simp_all
  | queued _ hhand => rcases hhand with rfl | rfl <;> simp [View.places]
  | executed _ _ _ _ hhand hone => rcases hhand with rfl | rfl | rfl <;> simp [View.places, hone]
  | cancelled _ _ _ _ hhand hone => rcases hhand with rfl | rfl <;> simp [View.places, hone]
  | _ => simp [View.places]

theorem Legal.ran_le (h : Legal v) : v.ran ≤ 1 := by
  cases h with
  | working _ _ ran => cases ran <;> simp
  | _ => simp

theorem Legal.outcome (h : Legal v) (hdone : v.done ≠ []) :
    (v.ran = 1 ∧ v.done = [0] ∧ AllBusy v.returned) ∨
    (v.ran = 0 ∧ v.done = [ecanceled] ∧ v.returned ≠ [] ∧ AllZero v.returned) := by
  cases h with
  | doneExecuted _ returned hbusy => exact .inl ⟨rfl, rfl, hbusy⟩
  | doneCancelled _ returned hne hzero => exact .inr ⟨rfl, rfl, hne, hzero⟩
  | _ => exact absurd rfl hdone

/-- At the test of `uv__work_cancel`, an item can be cancelled unless a worker took it. -/
theorem Legal.cancellable_iff (h : Legal v) (hhand : v.hand = .asking) :
    (v.linkEmpty = false ∧ v.work ≠ .null) ↔ ¬ ((∃ i, v.workers i ≠ none) ∨ v.ran ≠ 0) := by
  cases h with
  | working _ i ran =>
    have hi : ∃ j, update (fun _ : Fin n => (none : Option Bool)) i (some ran) j ≠ none :=
      ⟨i, by simp⟩
    simp [hi]
  | queued | executed | cancelled => simp
  | _ => cases hhand

theorem PoolReachable.executed_or_cancelled (hs : PoolReachable s) (hdone : s.done w ≠ []) :
    s.Executed w ∨ s.Cancelled w :=
  (hs.books.legal w).outcome hdone

theorem PoolReachable.cancellable_iff (hs : PoolReachable s)
    (hpc : s.loop w.loop = .cancel w .test) : s.cancellable w = true ↔ ¬ s.Taken w := by
  have h := (hs.books.legal w).cancellable_iff (by simp [Pool.view, hpc, LoopPc.hand, CancelPc.hand])
  simpa [Pool.cancellable, Pool.view, Pool.Taken] using h

/-! ### At rest -/

/-- While there is something in `wq` of a pool at rest, every worker has left. -/
theorem Pool.AtRest.all_exited (h : s.AtRest) (hs : PoolReachable s) (hne : s.wq ≠ []) (i : Fin n) :
    s.worker i = .exited := by
  have hworker := h.worker_eq hs
  rcases hs.wakeUp.wake hne with ⟨j, hj, hleft⟩ | (⟨l, w, hl⟩ | hcleanup) | hleft
  · rcases hworker j with hb | hb
    · exact absurd hb hj
    · exact absurd (by simp [hb, WorkerPc.left]) hleft
  · rw [(h.loop_eq hs l).1] at hl
    cases hl
  · rcases h.cleanup_eq hs with hc | ⟨k, hc, -⟩ <;> simp [hc] at hcleanup
  · apply (hworker i).resolve_left
    intro hb
    simpa [hb, WorkerPc.left] using hleft i

/-- The items of a pool at rest are done, but for those behind the exit message. -/
theorem Pool.AtRest.settled (h : s.AtRest) (hs : PoolReachable s) (hold : s.submitted w = true) :
    s.Executed w ∨ s.Cancelled w ∨ .item w ∈ s.wq := by
  have hlegal := hs.books.legal w
  obtain ⟨hpc, hlocal, hasync⟩ := h.loop_eq hs w.loop
  have hwq : s.loopWq w.loop = [] := by
    by_contra hne
    rcases hs.announced w.loop hne with h1 | ⟨i, w', hi, -⟩ | ⟨w', hl⟩ | hl | hl
    · simp [hasync] at h1
    · rcases h.worker_eq hs i with hb | hb <;> simp [hb] at hi
    all_goals simp [hpc] at hl
  have hhand : (s.view w).hand = .none := by simp [Pool.view, hpc, LoopPc.hand]
  have hworkers (i : Fin n) : (s.view w).workers i = none := by
    rcases h.worker_eq hs i with hb | hb <;> simp [Pool.view, hb, WorkerPc.hand]
  have hfinished : (s.view w).finished = 0 := by simp [Pool.view, hwq]
  have htaken : (s.view w).taken = 0 := by simp [Pool.view, hlocal]
  by_cases hdone : s.done w = []
  · refine .inr (.inr (count_pos_iff.mp ?_))
    have hplaces := hlegal.places_eq hold
    simp only [View.places, hworkers, hfinished, htaken, hhand] at hplaces
    simp [Pool.view, hdone] at hplaces
    omega
  · exact (hs.executed_or_cancelled hdone).imp_right .inl

theorem run_length_le [Fintype Λ] (hs : PoolReachable s) {es : List (Action n Λ)}
    (hrun : Run (fun s a t => s.step a = some t) s es t) :
    es.length ≤ s.rank 10 + (es.map (Action.cost n 10)).sum :=
  Ranking.length_le (P := fun _ => True) (fun s => s.rank 10) (Action.cost n 10) hrun hs trivial
    fun _ _ _ hreach _ hstep =>
      ⟨trivial, rank_step hstep (PoolReachable.books hreach).homed (by omega) (by omega) (.inl rfl)⟩

/-- What every interleaving keeps: an item is in one place and runs at most once, its callback
is called at most once with the right status, and `uv__work_cancel` returns `UV_EBUSY` just for
what a worker took. The threads come to rest, and then every item is done. -/
theorem works_exactly_once [Fintype Λ] (hn : 0 < n) (hs : PoolReachable s) :
    (∀ w, s.submitted w = true →
      (s.view w).places = 1 ∧ s.ran w ≤ 1 ∧ (s.done w ≠ [] → s.Executed w ∨ s.Cancelled w)) ∧
    (∀ w, s.loop w.loop = .cancel w .test →
      (s.Taken w → s.Refuses w) ∧
      (¬ s.Taken w →
        s.uvWorkCancel w .test =
          some ((s.remove w).setLoop w.loop (.cancel w (.unlockLoop true))))) ∧
    (s.AtRest → ∀ w, s.submitted w = true →
      s.Executed w ∨ s.Cancelled w ∨ (.item w ∈ s.wq ∧ s.cleanup.posted)) ∧
    ∀ es t, Run (fun s a t => s.step a = some t) s es t →
      es.length ≤ s.rank 10 + (es.map (Action.cost n 10)).sum := by
  refine ⟨fun w hold => ?_, fun w hpc => ⟨fun htaken => ?_, fun hno => ?_⟩, fun hrest w hold => ?_,
    fun es t hrun => run_length_le hs hrun⟩
  · have hlegal := hs.books.legal w
    exact ⟨hlegal.places_eq hold, hlegal.ran_le, hs.executed_or_cancelled⟩
  · have hcancel := mt (hs.cancellable_iff hpc).mp (not_not.mpr htaken)
    exact ⟨if_neg hcancel, fun t => ⟨rfl, rfl⟩⟩
  · exact if_pos ((hs.cancellable_iff hpc).mpr hno)
  · refine (hrest.settled hs hold).imp_right (Or.imp_right fun hmem => ⟨hmem, ?_⟩)
    have hne := List.ne_nil_of_mem hmem
    have hexited := hrest.all_exited hs hne ⟨0, hn⟩
    have hhead := hs.wakeUp.exit ⟨0, hn⟩ (by simp [hexited, WorkerPc.sawExit])
    exact hs.wakeUp.posted.mp (List.mem_of_mem_head? hhead)

/-! ### The exit message -/

/-- What is behind the exit message. -/
def behindExit : List (Entry Λ) → List (Entry Λ)
  | [] => []
  | .exitMessage :: wq => wq
  | .item _ :: wq => behindExit wq

/-- The item was in `wq` when the exit message was inserted, or has been taken out before. -/
structure BeforeExit (s : Pool n Λ) (w : Work Λ) : Prop where
  submitted : s.submitted w = true
  inserted : (s.view w).hand ≠ .posting
  exit : .exitMessage ∈ s.wq
  before : .item w ∉ behindExit s.wq

omit [DecidableEq Λ] in
theorem behindExit_append {wq : List (Entry Λ)} (h : .exitMessage ∈ wq) (q : Entry Λ) :
    behindExit (wq ++ [q]) = behindExit wq ++ [q] := by
  induction wq with
  | nil => cases h
  | cons e wq ih =>
    cases e with
    | exitMessage => rfl
    | item w => exact ih (by simpa using h)

theorem mem_of_mem_behindExit_erase {wq : List (Entry Λ)} {e : Entry Λ}
    (h : e ∈ behindExit (wq.erase (.item w))) : e ∈ behindExit wq := by
  induction wq with
  | nil => exact h
  | cons q wq ih =>
    cases q with
    | exitMessage =>
      exact mem_of_mem_erase h
    | item w' =>
      by_cases e' : w' = w
      · rw [e', erase_cons_head] at h
        exact h
      · rw [erase_cons_tail (by simpa using e')] at h
        exact ih h

theorem Turn.wq_cases (hturn : Turn s t) (hhome : Homed s) :
    t.wq = s.wq ∨ (∃ w, s.wq = .item w :: t.wq) ∨ (∃ w, t.wq = s.wq.erase (.item w)) ∨
      ∃ q, t.wq = s.wq ++ [q] ∧ ∀ w, q = .item w → (s.view w).hand = .posting := by
  cases hturn with
  | worker i hturn =>
    cases hturn with
    | take w wq hpc hwq => exact .inr (.inl ⟨w, hwq⟩)
    | _ => exact .inl rfl
  | loop l hturn =>
    cases hturn with
    | post w pc next t hpc hturn =>
      obtain rfl := hhome.post l w pc hpc
      rcases hturn.wq with ⟨-, hwq⟩ | ⟨rfl, hwq⟩
      · exact .inl hwq
      · refine .inr (.inr (.inr ⟨_, hwq, fun w' e => ?_⟩))
        obtain rfl : w = w' := by simpa using e
        simp [Pool.view, hpc, LoopPc.hand, PostPc.hand]
    | cancel w pc t hpc hturn =>
      cases hturn with
      | remove => exact .inr (.inr (.inl ⟨w, rfl⟩))
      | _ => exact .inl rfl
    | _ => exact .inl rfl
  | cleanup hturn =>
    cases hturn with
    | post pc next t hpc hturn =>
      rcases hturn.wq with ⟨-, hwq⟩ | ⟨-, hwq⟩
      · exact .inl hwq
      · exact .inr (.inr (.inr ⟨_, hwq, fun w' e => by simp at e⟩))
    | join => exact .inl rfl

theorem CancelPc.hand_ne_posting (pc : CancelPc) : pc.hand ≠ .posting := by
  cases pc with
  | unlockLoop cancelled | unlock cancelled => cases cancelled <;> simp [CancelPc.hand]
  | _ => simp [CancelPc.hand]

theorem Turn.posting (hturn : Turn s t) (hhome : Homed s) (h : (t.view w).hand = .posting) :
    (s.view w).hand = .posting := by
  cases hturn with
  | worker i hturn => cases hturn <;> exact h
  | loop l hturn =>
    cases hturn with
    | callDone => exact h
    | post w' pc next t hpc hturn =>
      obtain rfl := hhome.post l w' pc hpc
      by_cases hl : w.loop = w'.loop
      · by_cases e : w' = w
        · cases hturn <;> simp_all [Pool.view, Pool.setLoop, LoopPc.hand, PostPc.hand]
        · cases next <;> simp [Pool.view, Pool.setLoop, LoopPc.hand, hl, e] at h
      · simpa [Pool.view, Pool.setLoop, hl, hturn.loop_eq] using h
    | cancel w' pc t hpc hturn =>
      by_cases hl : w.loop = w'.loop
      · cases hturn <;> simp [Pool.view, Pool.setLoop, LoopPc.hand, hl] at h <;>
          grind [CancelPc.hand_ne_posting]
      · cases hturn <;>
          simpa [Pool.view, Pool.setLoop, hl, Pool.unlock, Pool.unlockLoop, Pool.insertLoopTail,
            Pool.returns, Pool.remove] using h
    | startDone hpc | doneLock hpc | doneMove hpc | doneUnlock hpc =>
      by_cases hl : w.loop = l
      · simp [Pool.view, Pool.setLoop, LoopPc.hand, hl] at h
      · simpa [Pool.view, Pool.setLoop, Pool.unlockLoop, hl] using h
  | cleanup hturn =>
    cases hturn with
    | post pc next t hpc hturn => simpa [Pool.view, hturn.loop_eq] using h
    | join => exact h

theorem submitted_of_step (hstep : s.step a = some t)
    (h : s.submitted w = true) : t.submitted w = true := by
  rcases turn_of_step hstep with ⟨-, hturn⟩ | ⟨-, hreq⟩
  · have heq : t.submitted = s.submitted := by
      cases hturn with
      | worker i hturn => cases hturn <;> rfl
      | loop l hturn =>
        cases hturn with
        | post w pc next t hpc hturn | cancel w pc t hpc hturn => cases hturn <;> rfl
        | _ => rfl
      | cleanup hturn =>
        cases hturn with
        | post pc next t hpc hturn => cases hturn <;> rfl
        | join => rfl
    rwa [heq]
  · cases hreq with
    | submit w' hpc hnew =>
      have hne : w ≠ w' := by
        rintro rfl
        simp [hnew] at h
      simpa [Pool.uvWorkSubmit, Pool.setLoop, hne] using h
    | _ => exact h

theorem BeforeExit.step (h : BeforeExit s w) (hs : PoolReachable s)
    (hstep : s.step a = some t) : BeforeExit t w := by
  have hhome := hs.books.homed
  rcases turn_of_step hstep with ⟨-, hturn⟩ | ⟨-, hreq⟩
  · refine ⟨submitted_of_step hstep h.submitted, fun hp => h.inserted (hturn.posting hhome hp),
      ?_, ?_⟩
    · rcases hturn.wq_cases hhome with hwq | ⟨w', hwq⟩ | ⟨w', hwq⟩ | ⟨q, hwq, -⟩
      · exact hwq ▸ h.exit
      · simpa [hwq] using h.exit
      · exact hwq ▸ (mem_erase_of_ne (by simp)).mpr h.exit
      · exact hwq ▸ mem_append_left _ h.exit
    · intro hmem
      apply h.before
      rcases hturn.wq_cases hhome with hwq | ⟨w', hwq⟩ | ⟨w', hwq⟩ | ⟨q, hwq, hq⟩
      · exact hwq ▸ hmem
      · exact hwq ▸ hmem
      · exact mem_of_mem_behindExit_erase (hwq ▸ hmem)
      · rw [hwq, behindExit_append h.exit, mem_append, mem_singleton] at hmem
        exact hmem.resolve_right fun e => h.inserted (hq w e.symm)
  · have hwq : t.wq = s.wq := by cases hreq <;> rfl
    refine ⟨submitted_of_step hstep h.submitted, ?_, hwq ▸ h.exit, hwq ▸ h.before⟩
    cases hreq with
    | submit w' hpc hnew =>
      have hne : w' ≠ w := by
        rintro rfl
        simp [h.submitted] at hnew
      by_cases hl : w.loop = w'.loop
      · simp [Pool.view, Pool.uvWorkSubmit, Pool.setLoop, LoopPc.hand, hl, hne]
      · simpa [Pool.view, Pool.uvWorkSubmit, Pool.setLoop, hl] using h.inserted
    | cancel w' hpc =>
      by_cases hl : w.loop = w'.loop
      · simp only [Pool.view, Pool.setLoop, LoopPc.hand, hl, Function.update_self]
        split_ifs <;> simp [CancelPc.hand]
      · simpa [Pool.view, Pool.setLoop, hl] using h.inserted
    | _ => exact h.inserted

variable {before after : List (Entry Λ)}

omit [DecidableEq Λ] in
theorem behindExit_eq (h : .exitMessage ∉ before) :
    behindExit (before ++ .exitMessage :: after) = after := by
  induction before with
  | nil => rfl
  | cons e before ih =>
    cases e with
    | exitMessage => exact absurd (mem_cons_self ..) h
    | item w => exact ih fun hmem => h (mem_cons_of_mem _ hmem)

theorem BeforeExit.of_wq (hs : PoolReachable s)
    (hwq : s.wq = before ++ .exitMessage :: after) (hexit : .exitMessage ∉ before)
    (hmem : .item w ∈ before) : BeforeExit s w := by
  have hbefore : 0 < before.count (.item w) := count_pos_iff.mpr hmem
  have hcount : (s.view w).queued = before.count (.item w) + after.count (.item w) := by
    simp [Pool.view, hwq]
  have hold : s.submitted w = true ∧ (s.view w).hand ≠ .posting ∧ (s.view w).queued ≤ 1 := by
    have hlegal := hs.books.legal w
    change (s.view w).submitted = true ∧ _
    generalize s.view w = v at hlegal hcount
    cases hlegal with
    | queued _ hhand => rcases hhand with rfl | rfl <;> simp
    | _ => simp only at hcount; omega
  refine ⟨hold.1, hold.2.1, by simp [hwq], ?_⟩
  rw [hwq, behindExit_eq hexit]
  exact count_eq_zero.mp (by omega)

theorem exited_of_step (hstep : s.step a = some t) (h : s.worker i = .exited) :
    t.worker i = .exited := by
  have hwake {s : Pool n Λ} {j : Fin n} (hi : s.worker i = .exited) (hj : s.worker j = .blocked) :
      (s.setWorker j .signalled).worker i = .exited := by
    have hne : i ≠ j := by
      rintro rfl
      rw [hi] at hj
      cases hj
    simpa [Pool.setWorker, hne] using hi
  have hpost {tid : Tid n Λ} {q : Entry Λ} {pc : PostPc} {next : Option PostPc} {t : Pool n Λ}
      (hturn : PostTurn s tid q pc t next) : t.worker i = .exited := by
    cases hturn with
    | signal j hj => exact hwake h hj
    | _ => cases q <;> exact h
  rcases turn_of_step hstep with ⟨-, hturn⟩ | ⟨-, hreq⟩
  · cases hturn with
    | worker j hturn =>
      have hne : i ≠ j := by
        rintro rfl
        cases hturn <;> simp_all
      cases hturn with
      | signal k hpc hk => simpa [Pool.setWorker, hne] using hwake h hk
      | _ => simpa [Pool.setWorker, Pool.unlock, Pool.unlockLoop, Pool.insertLoopTail, hne] using h
    | loop l hturn =>
      cases hturn with
      | post w pc next t hpc hturn =>
        show t.worker i = .exited
        exact hpost hturn
      | cancel w pc t hpc hturn => cases hturn <;> exact h
      | _ => exact h
    | cleanup hturn =>
      cases hturn with
      | post pc next t hpc hturn =>
        show t.worker i = .exited
        exact hpost hturn
      | join => exact h
  · cases hreq with
    | spurious j hj => exact hwake h hj
    | _ => exact h

theorem posted_of_step (hs : PoolReachable s) (hstep : s.step a = some t)
    (h : s.cleanup.posted) : t.cleanup.posted := by
  rcases turn_of_step hstep with ⟨-, hturn⟩ | ⟨-, hreq⟩
  · apply (PoolReachable.wakeUp (.step a hs hstep)).posted.mp
    have hmem := hs.wakeUp.posted.mpr h
    rcases hturn.wq_cases hs.books.homed with hwq | ⟨w', hwq⟩ | ⟨w', hwq⟩ | ⟨q, hwq, -⟩
    · exact hwq ▸ hmem
    · simpa [hwq] using hmem
    · exact hwq ▸ (mem_erase_of_ne (by simp)).mpr hmem
    · exact hwq ▸ mem_append_left _ hmem
  · cases hreq with
    | exit hpc =>
      rw [hpc] at h
      exact absurd h (by simp [CleanupPc.posted])
    | _ => exact h

/-- The wake-ups of the pool: no worker is left blocked while there is something in `wq`. Once
the exit message is posted it stays in `wq`, at its head from the first worker on that finds
it there; no further run is longer than its requests account for, spurious wake-ups included;
and when the threads come to rest every worker has left its loop, for good, and what was
queued before the exit message has been taken. -/
theorem wakeUps_and_exit [Fintype Λ] (hn : 0 < n) (hs : PoolReachable s) :
    (s.wq ≠ [] → (∀ i, s.worker i = .blocked ∨ (s.worker i).left) →
      (∃ i, s.worker i = .blocked) → s.SignalPending) ∧
    (s.cleanup.posted → ∀ es t, Run (fun s a t => s.step a = some t) s es t →
      .exitMessage ∈ t.wq ∧
      (∀ i, (t.worker i).sawExit → t.wq.head? = some .exitMessage) ∧
      (∀ i, s.worker i = .exited → t.worker i = .exited) ∧
      es.length ≤ s.rank 13 + (es.map (Action.cost n 13)).sum ∧
      (t.AtRest → (∀ i, t.worker i = .exited) ∧ (∃ k, n ≤ k ∧ t.cleanup = .join k) ∧
        ∀ before after w, s.wq = before ++ .exitMessage :: after → .exitMessage ∉ before →
          .item w ∈ before → t.Executed w ∨ t.Cancelled w)) := by
  refine ⟨fun hne hall hblocked => ?_, fun hposted es t hrun => ?_⟩
  · rcases hs.wakeUp.wake hne with ⟨i, hb, hleft⟩ | hpending | hleft
    · exact absurd ((hall i).resolve_left hb) hleft
    · exact hpending
    · obtain ⟨i, hi⟩ := hblocked
      simpa [hi, WorkerPc.left] using hleft i
  · have hlen : es.length ≤ s.rank 13 + (es.map (Action.cost n 13)).sum := by
      refine Ranking.length_le (P := fun s => s.cleanup.posted) (fun s => s.rank 13)
        (Action.cost n 13) hrun hs hposted fun s a t hreach hP hstep => ?_
      have hreach' : PoolReachable s := hreach
      have hne : s.wq ≠ [] := List.ne_nil_of_mem (hreach'.wakeUp.posted.mpr hP)
      exact ⟨posted_of_step hreach' hstep hP,
        rank_step hstep hreach'.books.homed (by omega) (by omega) (.inr hne)⟩
    have hkeep : PoolReachable t ∧ t.cleanup.posted ∧
        (∀ i, s.worker i = .exited → t.worker i = .exited) ∧
        ∀ w, BeforeExit s w → BeforeExit t w := by
      obtain ⟨ht, hP⟩ := hrun.invariant (P := fun u => u.cleanup.posted ∧
        (∀ i, s.worker i = .exited → u.worker i = .exited) ∧ ∀ w, BeforeExit s w → BeforeExit u w)
        hs ⟨hposted, fun _ h => h, fun _ h => h⟩ fun u a v hu hP hstep =>
          ⟨posted_of_step hu hstep hP.1, fun i h => exited_of_step hstep (hP.2.1 i h),
            fun w h => (hP.2.2 w h).step hu hstep⟩
      exact ⟨ht, hP⟩
    obtain ⟨ht, hposted', hexited, hbefore⟩ := hkeep
    have hmem := ht.wakeUp.posted.mpr hposted'
    refine ⟨hmem, ht.wakeUp.exit, hexited, hlen, fun hrest => ?_⟩
    have hall := hrest.all_exited ht (List.ne_nil_of_mem hmem)
    refine ⟨hall, ?_, fun before after w hwq hno hw => ?_⟩
    · rcases hrest.cleanup_eq ht with hc | ⟨k, hc, hk⟩
      · simp [hc, CleanupPc.posted] at hposted'
      · refine ⟨k, not_lt.mp fun hlt => hk ⟨k, hlt⟩ rfl (hall _), hc⟩
    · have hb := hbefore w (.of_wq hs hwq hno hw)
      have hhead := ht.wakeUp.exit ⟨0, hn⟩ (by simp [hall, WorkerPc.sawExit])
      obtain ⟨wq, hwq'⟩ := List.head?_eq_some_iff.mp hhead
      have hnot : .item w ∉ t.wq := by
        have h := hb.before
        rw [hwq'] at h ⊢
        simpa [behindExit] using h
      rcases hrest.settled ht hb.submitted with h | h | h
      · exact .inl h
      · exact .inr h
      · exact absurd h hnot

/-! ### Runs of a pool with one worker and one loop -/

theorem PoolReachable.of_run {as : List (Action n Λ)}
    (hrun : as.foldlM Pool.step (initPool n Λ) = some s) : PoolReachable s :=
  Reachable.of_foldlM (.init rfl) hrun

def smallWork : Work Unit := ⟨(), 0⟩

def submitRun : List (Action 1 Unit) := .submit smallWork :: List.replicate 3 (.loop () none)

/-- A call of `uv__work_cancel` that returns 0. -/
def cancelRun : List (Action 1 Unit) := .cancel smallWork :: List.replicate 10 (.loop () none)

/-- The worker runs what is in `wq` and waits. -/
def workerRun : List (Action 1 Unit) := List.replicate 10 (.worker 0 none)

/-- A call of `uv__work_done` with one item. -/
def doneRun : List (Action 1 Unit) := List.replicate 5 (.loop () none)

def exitRun : List (Action 1 Unit) := .exit :: List.replicate 3 (.cleanup none)

/-- The worker runs the item, and the loop calls `done`. -/
theorem works_exactly_once_run :
    ∃ s : Pool 1 Unit, s.done smallWork ≠ [] ∧ (s.view smallWork).places = 1 ∧
      (s.Executed smallWork ∨ s.Cancelled smallWork) := by
  obtain ⟨s, hrun, hold, hdone⟩ : ∃ s, (submitRun ++ workerRun ++ doneRun).foldlM
      Pool.step (initPool 1 Unit) = some s ∧ s.submitted smallWork = true ∧
        s.done smallWork = [0] := ⟨_, rfl, rfl, rfl⟩
  have h := (works_exactly_once (by decide) (.of_run hrun)).1 smallWork hold
  exact ⟨s, by simp [hdone], h.1, h.2.2 (by simp [hdone])⟩

/-- An item that is cancelled twice before its callback: `uv__work_cancel` returns 0 both times. -/
theorem cancelled_twice :
    ∃ s : Pool 1 Unit, PoolReachable s ∧ s.done smallWork = [ecanceled] ∧
      s.returned smallWork = [0, 0] ∧
      ¬ ((s.ran smallWork = 1 ∧ s.done smallWork = [0]) ∨
        ((s.returned smallWork).count 0 = 1 ∧ s.ran smallWork = 0 ∧
          s.done smallWork = [ecanceled])) := by
  obtain ⟨s, hrun, hdone, hreturned⟩ : ∃ s, (submitRun ++ cancelRun ++ cancelRun ++
      doneRun).foldlM Pool.step (initPool 1 Unit) = some s ∧
      s.done smallWork = [ecanceled] ∧ s.returned smallWork = [0, 0] := ⟨_, rfl, rfl, rfl⟩
  refine ⟨s, .of_run hrun, hdone, hreturned, ?_⟩
  rw [hdone, hreturned]
  simp [ecanceled]

/-- The exit message behind an item that no worker has taken yet. -/
theorem wakeUps_and_exit_run :
    ∃ s : Pool 1 Unit, s.wq = [.item smallWork, .exitMessage] ∧ s.cleanup.posted ∧
      ∀ es t, Run (fun s a t => s.step a = some t) s es t → t.AtRest →
        (∀ i, t.worker i = .exited) ∧ (t.Executed smallWork ∨ t.Cancelled smallWork) := by
  obtain ⟨s, hrun, hwq, hcleanup⟩ : ∃ s, (submitRun ++ exitRun).foldlM Pool.step
      (initPool 1 Unit) = some s ∧ s.wq = [.item smallWork, .exitMessage] ∧
        s.cleanup = .join 0 := ⟨_, rfl, rfl, rfl⟩
  have hposted : s.cleanup.posted := by simp [hcleanup, CleanupPc.posted]
  refine ⟨s, hwq, hposted, fun es t hst hrest => ?_⟩
  obtain ⟨-, -, -, -, hend⟩ := (wakeUps_and_exit (by decide) (.of_run hrun)).2 hposted es t hst
  obtain ⟨hall, -, hbefore⟩ := hend hrest
  exact ⟨hall, hbefore [.item smallWork] [] smallWork hwq (by simp) (by simp)⟩

end LibuvWorks.Threadpool
