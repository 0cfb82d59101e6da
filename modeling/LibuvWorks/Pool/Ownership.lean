import LibuvWorks.Pool.Ledger

/-!
# Every work item is in one place

In every reachable state of the pool the view of every work item is legal: the turns of
the threads take an item from one stage of its life to the next.
-/
namespace LibuvWorks.Threadpool

open List Function
open Function (update)
open Pool (insertLoopTail setLoop)

variable {n : ℕ} {Λ : Type*} [DecidableEq Λ]

def PostPc.hand : PostPc → Hand
  | .lock | .insert => .posting
  | .signal | .unlock => .none

def CancelPc.hand : CancelPc → Hand
  | .lock | .lockLoop | .test => .asking
  | .unlockLoop false | .unlock false => .refused
  | .unlockLoop true | .unlock true | .mark => .cancelling
  | .relock | .insert => .marked
  | .send | .finish => .returning

/-- What a thread at this point does with `w`. -/
def LoopPc.hand (w : Work Λ) : LoopPc Λ → Hand
  | .post w' pc => if w' = w then pc.hand else .none
  | .cancel w' pc => if w' = w then pc.hand else .none
  | .user | .doneLock | .doneMove | .doneUnlock => .none

/-- Whether a worker at this point has `w`, and then whether it called the work function. -/
def WorkerPc.hand (w : Work Λ) : WorkerPc Λ → Option Bool
  | .unlock w' | .run w' => if w' = w then some false else none
  | .lockLoop w' | .insert w' => if w' = w then some true else none
  | _ => none

/-- What the pool says about `w`. -/
def Pool.view (s : Pool n Λ) (w : Work Λ) : View n where
  submitted := s.submitted w
  hand := (s.loop w.loop).hand w
  queued := s.wq.count (.item w)
  workers i := (s.worker i).hand w
  finished := (s.loopWq w.loop).count w
  taken := (s.localWq w.loop).count w
  work := s.work w
  linkEmpty := s.linkEmpty w
  ran := s.ran w
  returned := s.returned w
  done := s.done w

open Pool (view)

structure Homed (s : Pool n Λ) : Prop where
  post : ∀ l w pc, s.loop l = .post w pc → w.loop = l
  cancel : ∀ l w pc, s.loop l = .cancel w pc → w.loop = l
  loopWq : ∀ l, ∀ w ∈ s.loopWq l, w.loop = l
  localWq : ∀ l, ∀ w ∈ s.localWq l, w.loop = l
  /-- The local queue is drained before it is filled again. -/
  drained : ∀ l, s.loop l = .doneLock ∨ s.loop l = .doneMove → s.localWq l = []

variable {s t : Pool n Λ} {w w' : Work Λ} {i : Fin n} {l : Λ} {q : Entry Λ} {tid : Tid n Λ}
  {next : Option PostPc}

/-! ### Views after a change -/

theorem view_setWorker {pc : WorkerPc Λ} :
    (s.setWorker i pc).view w =
      { s.view w with workers := update (s.view w).workers i (pc.hand w) } := by
  simp only [view, Pool.setWorker, View.mk.injEq, true_and, and_true]
  funext j
  by_cases h : j = i <;> simp [h]

theorem view_setWorker_of_hand {pc : WorkerPc Λ} (h : pc.hand w = (s.worker i).hand w) :
    (s.setWorker i pc).view w = s.view w := by
  rw [view_setWorker, h]
  simp only [view]
  congr
  exact update_eq_self i fun j => (s.worker j).hand w

theorem view_setLoop {pc : LoopPc Λ} :
    (s.setLoop l pc).view w =
      { s.view w with hand := if w.loop = l then pc.hand w else (s.view w).hand } := by
  by_cases h : w.loop = l <;> simp [view, setLoop, h]

theorem view_setLoop_of_hand {pc : LoopPc Λ} (h : pc.hand w = (s.loop l).hand w) :
    (s.setLoop l pc).view w = s.view w := by
  rw [view_setLoop]
  split_ifs with hl
  · rw [h, ← hl]
    rfl
  · rfl

@[simp] theorem view_unlock : s.unlock.view w = s.view w := rfl

@[simp] theorem view_unlockLoop : (s.unlockLoop l).view w = s.view w := rfl

theorem view_insertTail_item :
    (s.insertTail (.item w)).view w =
      { s.view w with queued := (s.view w).queued + 1, linkEmpty := false } := by
  simp [view, Pool.insertTail]

theorem view_insertTail_of_ne (h : q ≠ .item w) : (s.insertTail q).view w = s.view w := by
  cases q with
  | exitMessage => simp [view, Pool.insertTail]
  | item w' =>
    have hne : w ≠ w' := fun e => h (by rw [e])
    simp [view, Pool.insertTail, hne, Ne.symm hne]

theorem view_insertLoopTail_self :
    (s.insertLoopTail w).view w =
      { s.view w with finished := (s.view w).finished + 1, linkEmpty := false } := by
  simp [view, insertLoopTail]

theorem view_insertLoopTail_of_ne (h : w' ≠ w) : (s.insertLoopTail w').view w = s.view w := by
  by_cases hl : w.loop = w'.loop <;> simp [view, insertLoopTail, h, h.symm, hl]

theorem view_remove_self :
    (s.remove w).view w =
      { s.view w with
        queued := (s.view w).queued - 1
        finished := (s.view w).finished - 1
        taken := (s.view w).taken - 1 } := by
  simp [view, Pool.remove]

theorem view_remove_of_ne (h : w' ≠ w) : (s.remove w').view w = s.view w := by
  have hq : (s.wq.erase (.item w')).count (.item w) = s.wq.count (.item w) :=
    count_erase_of_ne (by simpa using h.symm)
  by_cases hl : w.loop = w'.loop
  · simp [view, Pool.remove, hq, ← hl, count_erase_of_ne h.symm]
  · simp [view, Pool.remove, hq, hl]

theorem view_returns_self {err : ℤ} :
    (s.returns w err).view w = { s.view w with returned := (s.view w).returned ++ [err] } := by
  simp [view, Pool.returns]

theorem view_returns_of_ne {err : ℤ} (h : w' ≠ w) : (s.returns w' err).view w = s.view w := by
  simp [view, Pool.returns, h.symm]

/-! ### Turns -/

theorem WorkerTurn.legal (hturn : WorkerTurn s i t) (h : Legal (s.view w)) :
    Legal (t.view w) := by
  cases hturn with
  | lock hpc | wait hpc | seeExit _ hpc =>
    rw [view_setWorker_of_hand (by simp [WorkerPc.hand, hpc])]
    exact h
  | take w' wq hpc hwq =>
    rw [view_setWorker]
    by_cases e : w' = w
    · subst e
      have hcount : (s.view w').queued = wq.count (.item w') + 1 := by simp [view, hwq]
      have hlegal := h.take (by omega) i
      simpa [view, hwq, WorkerPc.hand] using hlegal
    · rw [← view_setWorker, view_setWorker_of_hand (by simp [WorkerPc.hand, hpc, e])]
      simpa [view, hwq, e, Ne.symm e] using h
  | resume hpc =>
    rw [view_setWorker_of_hand (by simp [WorkerPc.hand, hpc])]
    exact h
  | signal j hpc hj =>
    have hne : i ≠ j := by
      rintro rfl
      rw [hpc] at hj
      cases hj
    rw [view_setWorker_of_hand (by simp [Pool.setWorker, WorkerPc.hand, hpc, hne]),
      view_setWorker_of_hand (by simp [WorkerPc.hand, hj])]
    exact h
  | signalNone hpc =>
    rw [view_setWorker_of_hand (by simp [WorkerPc.hand, hpc])]
    exact h
  | leave hpc | unlock w' hpc =>
    rw [view_setWorker_of_hand (by simp [WorkerPc.hand, Pool.unlock, hpc])]
    exact h
  | run w' hpc hwork =>
    rw [view_setWorker]
    by_cases e : w' = w
    · subst e
      have hlegal := h.run (i := i) (by simp [view, hpc, WorkerPc.hand])
      simpa [view, WorkerPc.hand] using hlegal
    · rw [← view_setWorker, view_setWorker_of_hand (by simp [WorkerPc.hand, hpc, e])]
      simpa [view, Ne.symm e] using h
  | abort w' hpc hwork =>
    have hne : w' ≠ w := by
      rintro rfl
      exact hwork (h.work_eq (i := i) (b := false) (by simp [view, hpc, WorkerPc.hand]))
    rw [view_setWorker_of_hand (by simp [WorkerPc.hand, hpc, hne])]
    exact h
  | lockLoop w' hpc =>
    rw [view_setWorker_of_hand (by simp [WorkerPc.hand, hpc])]
    exact h
  | insert w' hpc =>
    rw [view_setWorker]
    by_cases e : w' = w
    · subst e
      have hlegal := h.finish (i := i) (by simp [view, hpc, WorkerPc.hand])
      rw [view_insertLoopTail_self]
      simpa [view, WorkerPc.hand] using hlegal
    · rw [← view_setWorker, view_setWorker_of_hand (by
        simp [insertLoopTail, WorkerPc.hand, hpc, e]), view_insertLoopTail_of_ne e]
      simpa [view, Ne.symm e] using h
  | send w' hpc =>
    rw [view_setWorker_of_hand (by simp [WorkerPc.hand, hpc])]
    exact h
  | unlockLoop w' hpc =>
    rw [view_setWorker_of_hand (by simp [WorkerPc.hand, Pool.unlockLoop, hpc])]
    exact h

variable {pc : PostPc}

theorem PostTurn.view_eq
    (hturn : PostTurn s tid q pc t next) (hpc : pc ≠ .insert ∨ q ≠ .item w) :
    t.view w = s.view w := by
  cases hturn with
  | lock => rfl
  | insertSignal | insertQuiet => exact view_insertTail_of_ne (hpc.resolve_left fun h => h rfl)
  | signal j hj => exact view_setWorker_of_hand (by simp [WorkerPc.hand, hj])
  | signalNone | unlock => rfl

theorem PostTurn.loop_eq (hturn : PostTurn s tid q pc t next) : t.loop = s.loop := by
  cases hturn <;> cases q <;> rfl

theorem PostTurn.legal_item
    (hturn : PostTurn s tid (.item w) pc t next) (hpc : s.loop w.loop = .post w pc)
    (h : Legal (s.view w)) :
    Legal ((t.setLoop w.loop (next.elim .user (.post w))).view w) := by
  have hhand : (s.view w).hand = pc.hand := by simp [view, hpc, LoopPc.hand]
  cases hturn with
  | lock =>
    rw [view_setLoop_of_hand (by simp [hpc, LoopPc.hand, PostPc.hand])]
    exact h
  | insertSignal | insertQuiet =>
    rw [view_setLoop, view_insertTail_item]
    simpa [LoopPc.hand, PostPc.hand] using h.post hhand
  | signal j hj =>
    rw [view_setLoop_of_hand (by simp [Pool.setWorker, hpc, LoopPc.hand, PostPc.hand]),
      view_setWorker_of_hand (by simp [WorkerPc.hand, hj])]
    exact h
  | signalNone =>
    rw [view_setLoop_of_hand (by simp [hpc, LoopPc.hand, PostPc.hand])]
    exact h
  | unlock =>
    rw [view_setLoop_of_hand (by simp [Pool.unlock, hpc, LoopPc.hand, PostPc.hand])]
    exact h

theorem CancelTurn.view_of_ne {pc : CancelPc} (hturn : CancelTurn s w' pc t)
    (hpc : s.loop w'.loop = .cancel w' pc) (hne : w' ≠ w) : t.view w = s.view w := by
  cases hturn with
  | remove =>
    rw [view_setLoop_of_hand (by simp [Pool.remove, hpc, LoopPc.hand, hne]),
      view_remove_of_ne hne]
  | busy =>
    rw [view_setLoop_of_hand (by simp [Pool.returns, Pool.unlock, hpc, LoopPc.hand, hne]),
      view_returns_of_ne hne]
    exact view_unlock
  | mark =>
    rw [view_setLoop_of_hand (by simp [hpc, LoopPc.hand, hne])]
    simp [view, hne.symm]
  | insert =>
    rw [view_setLoop_of_hand (by simp [insertLoopTail, hpc, LoopPc.hand, hne]),
      view_insertLoopTail_of_ne hne]
  | finish =>
    rw [view_setLoop_of_hand (by simp [Pool.returns, Pool.unlockLoop, hpc, LoopPc.hand, hne]),
      view_returns_of_ne hne]
    exact view_unlockLoop
  | refuse => rw [view_setLoop_of_hand (by simp [hpc, LoopPc.hand, hne])]
  | lock | lockLoop | relock | send =>
    rw [view_setLoop_of_hand (by simp [hpc, LoopPc.hand, hne])]
    rfl
  | unlockLoop | unlock =>
    rw [view_setLoop_of_hand (by simp [Pool.unlockLoop, Pool.unlock, hpc, LoopPc.hand, hne])]
    rfl

theorem CancelTurn.legal {pc : CancelPc} (hturn : CancelTurn s w pc t)
    (hpc : s.loop w.loop = .cancel w pc) (h : Legal (s.view w)) : Legal (t.view w) := by
  have hhand : (s.view w).hand = pc.hand := by simp [view, hpc, LoopPc.hand]
  cases hturn with
  | remove hyes =>
    obtain ⟨hlink, hwork⟩ : s.linkEmpty w = false ∧ s.work w ≠ .null := by
      simpa [Pool.cancellable] using hyes
    rw [view_setLoop, view_remove_self]
    simpa [LoopPc.hand, CancelPc.hand] using h.remove hhand hlink hwork
  | refuse hno =>
    have hlink : s.linkEmpty w = true ∨ s.work w = .null := by
      simpa [Pool.cancellable, or_iff_not_imp_left] using hno
    rw [view_setLoop]
    simpa [LoopPc.hand, CancelPc.hand] using h.refuse hhand hlink
  | busy =>
    rw [view_setLoop, view_returns_self]
    simpa [LoopPc.hand, CancelPc.hand] using h.busy hhand
  | mark =>
    rw [view_setLoop]
    simpa [view, LoopPc.hand, CancelPc.hand] using h.mark hhand
  | insert =>
    rw [view_setLoop, view_insertLoopTail_self]
    simpa [LoopPc.hand, CancelPc.hand] using h.requeue hhand
  | finish =>
    rw [view_setLoop, view_returns_self]
    simpa [LoopPc.hand, CancelPc.hand] using h.returnZero hhand
  | lock | lockLoop | relock | send =>
    rw [view_setLoop_of_hand (by simp [hpc, LoopPc.hand, CancelPc.hand])]
    exact h
  | unlockLoop cancelled =>
    rw [view_setLoop_of_hand (by
      cases cancelled <;> simp [Pool.unlockLoop, hpc, LoopPc.hand, CancelPc.hand])]
    exact h
  | unlock =>
    rw [view_setLoop_of_hand (by simp [Pool.unlock, hpc, LoopPc.hand, CancelPc.hand])]
    exact h

theorem LoopTurn.legal (hturn : LoopTurn s l t) (hs : Homed s) (h : Legal (s.view w)) :
    Legal (t.view w) := by
  cases hturn with
  | callDone w' ws hpc hlocal =>
    obtain rfl : w'.loop = l := hs.localWq l w' (by simp [hlocal])
    by_cases e : w' = w
    · subst e
      have htaken : (s.view w').taken = ws.count w' + 1 := by simp [view, hlocal]
      have hlegal := h.callDone (by simp [view, hpc, LoopPc.hand]) (by omega)
      simpa [view, hlocal] using hlegal
    · by_cases hl : w.loop = w'.loop
      · simpa [view, Ne.symm e, hl, hlocal, e] using h
      · simpa [view, Ne.symm e, hl] using h
  | startDone hpc =>
    rw [view_setLoop_of_hand (by simp [hpc, LoopPc.hand])]
    exact h
  | post w' pc next t hpc hturn =>
    obtain rfl := hs.post l w' pc hpc
    by_cases e : w' = w
    · subst e
      exact hturn.legal_item hpc h
    · rw [view_setLoop_of_hand, hturn.view_eq (.inr (by simpa using e))]
      · exact h
      · rw [hturn.loop_eq, hpc]
        cases next <;> simp [LoopPc.hand, e]
  | cancel w' pc t hpc hturn =>
    obtain rfl := hs.cancel l w' pc hpc
    by_cases e : w' = w
    · subst e
      exact hturn.legal hpc h
    · rwa [hturn.view_of_ne hpc e]
  | doneLock hpc =>
    rw [view_setLoop_of_hand (by simp [hpc, LoopPc.hand])]
    exact h
  | doneMove hpc =>
    rw [view_setLoop_of_hand (by simp [hpc, LoopPc.hand])]
    by_cases hl : w.loop = l
    · subst hl
      have hempty := hs.drained w.loop (.inr hpc)
      have hlegal := h.move (by simp [view, hpc, LoopPc.hand]) (by simp [view, hempty])
      simpa [view] using hlegal
    · simpa [view, hl] using h
  | doneUnlock hpc =>
    rw [view_setLoop_of_hand (by simp [Pool.unlockLoop, hpc, LoopPc.hand])]
    exact h

theorem CleanupTurn.legal (hturn : CleanupTurn s t) (h : Legal (s.view w)) :
    Legal (t.view w) := by
  cases hturn with
  | post pc next t hpc hturn =>
    have hview := hturn.view_eq (w := w) (.inr (by simp))
    exact hview ▸ h
  | join => exact h

theorem Request.legal (hreq : Request s t) (h : Legal (s.view w)) : Legal (t.view w) := by
  cases hreq with
  | submit w' hpc hnew =>
    by_cases e : w' = w
    · subst e
      rw [Pool.uvWorkSubmit, view_setLoop]
      simpa [view, LoopPc.hand, PostPc.hand] using h.submit hnew
    · rw [Pool.uvWorkSubmit, view_setLoop_of_hand (by simp [hpc, LoopPc.hand, e])]
      simpa [view, Ne.symm e] using h
  | cancel w' hpc hold hdone =>
    by_cases e : w' = w
    · subst e
      rw [view_setLoop]
      simpa [LoopPc.hand, CancelPc.hand] using
        h.ask hold hdone (by simp [view, hpc, LoopPc.hand])
    · rw [view_setLoop_of_hand (by simp [hpc, LoopPc.hand, e])]
      exact h
  | exit => exact h
  | spurious i hpc =>
    rw [view_setWorker_of_hand (by simp [WorkerPc.hand, hpc])]
    exact h

/-! ### Items stay with their loop -/

omit [DecidableEq Λ] in
theorem Homed.of_eq (h : Homed s) (hloop : t.loop = s.loop) (hwq : t.loopWq = s.loopWq)
    (hlocal : t.localWq = s.localWq) : Homed t :=
  ⟨by rw [hloop]; exact h.post, by rw [hloop]; exact h.cancel, by rw [hwq]; exact h.loopWq,
    by rw [hlocal]; exact h.localWq, by rw [hloop, hlocal]; exact h.drained⟩

theorem Homed.setLoop {pc : LoopPc Λ} (h : Homed s) (hpost : ∀ w pc', pc = .post w pc' → w.loop = l)
    (hcancel : ∀ w pc', pc = .cancel w pc' → w.loop = l)
    (hdrained : pc = .doneLock ∨ pc = .doneMove → s.localWq l = []) : Homed (s.setLoop l pc) := by
  constructor
  · intro k w pc' hk
    by_cases e : k = l
    · subst e
      exact hpost w pc' (by simpa [Pool.setLoop] using hk)
    · exact h.post k w pc' (by simpa [Pool.setLoop, e] using hk)
  · intro k w pc' hk
    by_cases e : k = l
    · subst e
      exact hcancel w pc' (by simpa [Pool.setLoop] using hk)
    · exact h.cancel k w pc' (by simpa [Pool.setLoop, e] using hk)
  · exact h.loopWq
  · exact h.localWq
  · intro k hk
    by_cases e : k = l
    · subst e
      exact hdrained (by simpa [Pool.setLoop] using hk)
    · exact h.drained k (by simpa [Pool.setLoop, e] using hk)

theorem Homed.insertLoopTail (h : Homed s) (w : Work Λ) : Homed (s.insertLoopTail w) := by
  refine { h with loopWq := ?_ }
  intro k w' hw'
  by_cases e : k = w.loop
  · subst e
    simp only [Pool.insertLoopTail, update_self, mem_append,
      mem_singleton] at hw'
    rcases hw' with hw' | rfl
    · exact h.loopWq _ w' hw'
    · rfl
  · exact h.loopWq k w' (by simpa [Pool.insertLoopTail, e] using hw')

theorem Homed.remove (h : Homed s) (w : Work Λ) : Homed (s.remove w) := by
  refine ⟨h.post, h.cancel, ?_, ?_, ?_⟩
  · intro k w' hw'
    by_cases e : k = w.loop
    · subst e
      exact h.loopWq _ w' (mem_of_mem_erase (by simpa [Pool.remove] using hw'))
    · exact h.loopWq k w' (by simpa [Pool.remove, e] using hw')
  · intro k w' hw'
    by_cases e : k = w.loop
    · subst e
      exact h.localWq _ w' (mem_of_mem_erase (by simpa [Pool.remove] using hw'))
    · exact h.localWq k w' (by simpa [Pool.remove, e] using hw')
  · intro k hk
    have hempty := h.drained k hk
    by_cases e : k = w.loop
    · subst e
      simp [Pool.remove, hempty]
    · simpa [Pool.remove, e] using hempty

theorem WorkerTurn.homed (hturn : WorkerTurn s i t) (hs : Homed s) : Homed t := by
  cases hturn with
  | insert w => exact (hs.insertLoopTail w).of_eq rfl rfl rfl
  | _ => exact hs.of_eq rfl rfl rfl

theorem PostTurn.homed
    (hturn : PostTurn s tid q pc t next) (hs : Homed s) : Homed t := by
  cases hturn <;> cases q <;> exact hs.of_eq rfl rfl rfl

theorem CancelTurn.homed {pc : CancelPc} (hturn : CancelTurn s w pc t) (hs : Homed s) :
    Homed t := by
  cases hturn with
  | remove => exact (hs.remove w).setLoop (by simp) (by simp) (by simp)
  | insert => exact (hs.insertLoopTail w).setLoop (by simp) (by simp) (by simp)
  | _ =>
    refine Homed.setLoop (hs.of_eq rfl rfl rfl) ?_ ?_ ?_
    all_goals simp

theorem LoopTurn.homed (hturn : LoopTurn s l t) (hs : Homed s) : Homed t := by
  cases hturn with
  | callDone w ws hpc hlocal =>
    refine { hs with localWq := ?_, drained := ?_ }
    · intro k w' hw'
      by_cases e : k = l
      · exact hs.localWq k w' (by simp_all)
      · exact hs.localWq k w' (by simpa [e] using hw')
    · intro k hk
      by_cases e : k = l
      · subst e
        simp [hpc] at hk
      · simpa [e] using hs.drained k hk
  | startDone hpc hlocal =>
    exact Homed.setLoop (hs.of_eq rfl rfl rfl) (by simp) (by simp) fun _ => hlocal
  | post w pc next t hpc hturn =>
    apply (hturn.homed hs).setLoop
    · intro w' pc' h
      obtain rfl : w = w' := by
        cases next <;> simp at h
        exact h.1
      exact hs.post l w pc hpc
    · cases next <;> simp
    · cases next <;> simp
  | cancel w pc t hpc hturn => exact hturn.homed hs
  | doneLock hpc =>
    exact Homed.setLoop (hs.of_eq rfl rfl rfl) (by simp) (by simp) fun _ =>
      hs.drained l (.inl hpc)
  | doneMove hpc =>
    have hother {k : Λ} {pc : LoopPc Λ} (hk : update s.loop l .doneUnlock k = pc)
        (hne : pc ≠ .doneUnlock) : k ≠ l ∧ s.loop k = pc := by
      by_cases e : k = l
      · subst e
        simp only [update_self] at hk
        exact absurd hk.symm hne
      · exact ⟨e, by simpa [e] using hk⟩
    refine ⟨?_, ?_, ?_, ?_, ?_⟩
    · intro k w' pc hk
      exact hs.post k w' pc (hother hk (by simp)).2
    · intro k w' pc hk
      exact hs.cancel k w' pc (hother hk (by simp)).2
    · intro k w' hw'
      by_cases e : k = l
      · simp [setLoop, e] at hw'
      · exact hs.loopWq k w' (by simpa [setLoop, e] using hw')
    · intro k w' hw'
      by_cases e : k = l
      · subst e
        exact hs.loopWq k w' (by simpa [setLoop] using hw')
      · exact hs.localWq k w' (by simpa [setLoop, e] using hw')
    · intro k hk
      have hk' : k ≠ l ∧ (s.loop k = .doneLock ∨ s.loop k = .doneMove) := by
        rcases hk with hk | hk
        · exact ⟨(hother hk (by simp)).1, .inl (hother hk (by simp)).2⟩
        · exact ⟨(hother hk (by simp)).1, .inr (hother hk (by simp)).2⟩
      simpa [setLoop, hk'.1] using hs.drained k hk'.2
  | doneUnlock hpc =>
    exact Homed.setLoop (hs.of_eq rfl rfl rfl) (by simp) (by simp) (by simp)

theorem Request.homed (hreq : Request s t) (hs : Homed s) : Homed t := by
  cases hreq with
  | submit w =>
    exact Homed.setLoop (hs.of_eq rfl rfl rfl) (by simp) (by simp) (by simp)
  | cancel w => exact hs.setLoop (by simp) (by simp) (by simp)
  | exit | spurious => exact hs.of_eq rfl rfl rfl

theorem Turn.homed (hturn : Turn s t) (hs : Homed s) : Homed t := by
  cases hturn with
  | worker i hturn | loop l hturn => exact hturn.homed hs
  | cleanup hturn =>
    cases hturn with
    | post pc next t hpc hturn => exact (hturn.homed hs).of_eq rfl rfl rfl
    | join => exact hs.of_eq rfl rfl rfl

theorem Turn.legal (hturn : Turn s t) (hs : Homed s) (h : Legal (s.view w)) :
    Legal (t.view w) := by
  cases hturn with
  | worker i hturn => exact hturn.legal h
  | loop l hturn => exact hturn.legal hs h
  | cleanup hturn => exact hturn.legal h

structure Books (s : Pool n Λ) : Prop where
  homed : Homed s
  legal : ∀ w, Legal (s.view w)

theorem PoolReachable.books (h : PoolReachable s) : Books s := by
  apply Transition.Reachable.invariant h
  · rintro _ rfl
    exact ⟨⟨by simp [initPool], by simp [initPool], by simp [initPool], by simp [initPool],
      by simp [initPool]⟩, fun w => .fresh ..⟩
  · intro s a t _ hs hstep
    rcases turn_of_step hstep with ⟨-, hturn⟩ | ⟨-, hreq⟩
    · exact ⟨hturn.homed hs.homed, fun w => hturn.legal hs.homed (hs.legal w)⟩
    · exact ⟨hreq.homed hs.homed, fun w => hreq.legal (hs.legal w)⟩

end LibuvWorks.Threadpool
