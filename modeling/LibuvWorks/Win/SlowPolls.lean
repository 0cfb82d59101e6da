import LibuvWorks.Win.PollHandles

/-!
# The results of slow polls

The thread of a request stores the result of its `select` in the request, but for an error: this
goes to `poll_req_1`, whichever request the thread has.
-/
namespace LibuvWorks.Win.PollHandle

open Transition

variable {s t : PollHandle} {slot : ReqSlot} {e : Event} {queueError : Option ℕ}

/-- The overlapped structure of a request shows how its work ended. -/
def Carries (r : PollReq) : SlowOutcome → Prop
  | .selected (.failed error) => r.status = some error
  | .selected (.returned n rfds wfds efds) =>
    r.status = none ∧ r.high = (SelectResult.returned n rfds wfds efds).reportedEvents
  | .notQueued error => r.status = some error

/-- What `poll_cb` is told comes from the work of the request. -/
def Reports (outcome : SlowOutcome) (events : Finset PollEvent) : Option ℕ → Prop
  | some error => outcome = .selected (.failed error) ∨ outcome = .notQueued error
  | none => ∃ result, outcome = .selected result ∧ events ⊆ result.reportedEvents

/-- A result that is stored is that of the thread, and only the thread of `poll_req_1` has an error
to store. -/
def Faithful (slot : ReqSlot) (r : PollReq) : Prop :=
  match r.work with
  | .returned (.failed _) => slot = .one
  | .stored result => Carries r (.selected result)
  | .posted outcome => Carries r outcome
  | _ => True

def AllFaithful (s : PollHandle) : Prop := ∀ slot, Faithful slot (s.req slot)

/-- What the threads ask of `select`: it does not fail for `poll_req_2`. -/
def Selects (s : PollHandle) : Event → Prop
  | .thread .two (.failed _) =>
    match s.req2.work with
    | .selecting _ _ => False
    | _ => True
  | _ => True

instance (s : PollHandle) (e : Event) : Decidable (Selects s e) := by
  unfold Selects
  split
  · split <;> infer_instance
  · infer_instance

namespace AllFaithful

section

variable (h : AllFaithful s)
include h

theorem setReq {r : PollReq} (hr : Faithful slot r) :
    AllFaithful (s.setReq r slot) := by
  intro i
  rcases eq_or_eq_other slot i with rfl | rfl
  · rw [req_setReq]
    exact hr
  · rw [req_setReq_other]
    exact h _

theorem takeOver (slot : ReqSlot) : AllFaithful (s.takeOver slot) := by
  have hown : AllFaithful
      (s.setReq { s.req slot with submittedEvents := s.events, maskEvents := ∅ } slot) :=
    h.setReq (h slot)
  exact hown.setReq (hown slot.other)

theorem submit (ht : s.submit queueError = some t) : AllFaithful t := by
  unfold PollHandle.submit uvSlowPollSubmitPollReq uvFastPollSubmitPollReq at ht
  cases hfree : s.freeSlot with
  | none =>
    rw [hfree] at ht
    dsimp only at ht
    split_ifs at ht
    cases ht
    exact h
  | some slot =>
    rw [hfree] at ht
    dsimp only at ht
    split_ifs at ht
    · cases queueError with
      | none =>
        cases ht
        exact (h.takeOver slot).setReq trivial
      | some error =>
        cases ht
        exact (h.takeOver slot).setReq rfl
    · cases ht
      exact (h.takeOver slot).setReq trivial

theorem afterPollCb (ht : s.afterPollCb queueError = some t) :
    AllFaithful t := by
  unfold PollHandle.afterPollCb at ht
  dsimp only at ht
  split_ifs at ht
  · apply AllFaithful.submit ?_ ht
    exact h
  · cases ht
    exact h
  · cases ht
    exact h

theorem clear (slot : ReqSlot) : AllFaithful (s.clear slot) := h.setReq trivial

theorem reportEvents {events : Finset PollEvent}
    (ht : s.reportEvents queueError events = some t) : AllFaithful t := by
  unfold PollHandle.reportEvents at ht
  split_ifs at ht
  · cases ht
    exact h
  · exact h.afterPollCb ht

theorem uvProcessPollReq {result : AfdResult}
    (ht : s.uvProcessPollReq slot result queueError = some t) : AllFaithful t := by
  have hclear := h.clear slot
  rcases uvProcessPollReq_cases ht with ⟨error, rfl⟩ | ⟨_, hafter⟩ | ⟨u, _, _, hu, hreport⟩
  · exact hclear
  · exact hclear.afterPollCb hafter
  · apply AllFaithful.reportEvents ?_ hreport
    rcases hu with rfl | rfl
    · exact hclear
    · exact hclear

theorem pollSet {allowed events : Finset PollEvent}
    (ht : s.pollSet allowed events queueError = some t) : AllFaithful t := by
  unfold PollHandle.pollSet at ht
  dsimp only at ht
  split_ifs at ht
  · apply AllFaithful.submit ?_ ht
    exact h
  · cases ht
    exact h

/-- The thread stores its result in its own request, if it has no error for `poll_req_2`. -/
theorem store {result : SelectResult}
    (hwork : (s.req slot).work = .returned result) :
    AllFaithful ((s.store slot result).setReq
      { (s.store slot result).req slot with work := .stored result } slot) := by
  cases result with
  | failed error =>
    have hslot : slot = .one := by
      have hfaithful := h slot
      rw [Faithful, hwork] at hfaithful
      exact hfaithful
    subst hslot
    intro i
    cases i with
    | one => rfl
    | two => exact h .two
  | returned r rfds wfds efds =>
    intro i
    rcases eq_or_eq_other slot i with rfl | rfl
    · rw [req_setReq, PollHandle.store, req_setReq]
      exact ⟨rfl, rfl⟩
    · rw [req_setReq_other, PollHandle.store, req_setReq_other]
      exact h _

theorem uvSlowPollThreadProc {result : SelectResult}
    (hselects : Selects s (.thread slot result)) :
    AllFaithful (s.uvSlowPollThreadProc slot result) := by
  unfold PollHandle.uvSlowPollThreadProc
  split
  · exact h.setReq trivial
  · exact h.setReq trivial
  · rename_i rfds wfds hwork
    apply h.setReq
    cases result with
    | failed error =>
      cases slot with
      | one => rfl
      | two =>
        have hselecting : s.req2.work = .selecting rfds wfds := hwork
        rw [Selects, hselecting] at hselects
        exact hselects.elim
    | returned => trivial
  · rename_i result hwork
    exact h.store hwork
  · rename_i result hwork
    have hstored := h slot
    rw [Faithful, hwork] at hstored
    exact h.setReq hstored
  · exact h

theorem step (hselects : Selects s e) (ht : Step s e t) : AllFaithful t := by
  rw [Step, PollHandle.step] at ht
  split_ifs at ht
  cases e with
  | done slot result queueError => exact h.uvProcessPollReq ht
  | returned queueError => exact h.afterPollCb ht
  | endgame =>
    simp only [next, uvPollEndgame] at ht
    split_ifs at ht
    cases ht
    exact h
  | start events queueError =>
    simp only [next, uvPollStart] at ht
    split_ifs at ht
    · exact h.pollSet ht
    · exact h.pollSet ht
  | stop =>
    simp only [next, uvPollStop] at ht
    split_ifs at ht
    · exact h.pollSet ht
    · exact h.pollSet ht
  | close =>
    simp only [next, uvPollClose] at ht
    split_ifs at ht
    · cases ht
      exact h
    · cases ht
      exact h
  | thread slot result =>
    cases ht
    exact h.uvSlowPollThreadProc hselects

end

theorem of_reachable (h : Reachable Init (Guarded Selects Step) s) : AllFaithful s := by
  apply h.invariant
  · intro s hs slot
    rw [Faithful, hs.work]
    trivial
  · exact fun s e t _ hs hst => hs.step hst.1 hst.2

end AllFaithful

/-! ### What the loop reports -/

theorem exists_posted (hslow : s.slow = true) (hdone : s.isDone slot = true) :
    ∃ outcome, (s.req slot).work = .posted outcome := by
  unfold isDone at hdone
  split at hdone
  · rw [hslow] at hdone
    cases hdone
  · exact ⟨_, ‹_›⟩
  · cases hdone

theorem error_reportEvents {error : Option ℕ} {events reported : Finset PollEvent}
    (ht : s.reportEvents queueError events = some t) (hphase : t.phase = .pollCb error reported) :
    error = none := by
  unfold PollHandle.reportEvents at ht
  split_ifs at ht
  · cases ht
    cases hphase
    rfl
  · cases (phase_afterPollCb ht).symm.trans hphase

/-- A callback for a request that carries the outcome of its work is told that. -/
theorem reports_of_carries {outcome : SlowOutcome} {error : Option ℕ} {events : Finset PollEvent}
    (h : Carries (s.req slot) outcome)
    (ht : s.uvSlowPollProcessPollReq slot queueError = some t)
    (hphase : t.phase = .pollCb error events) : Reports outcome events error := by
  have hreq : ((s.clear slot).req slot).status = (s.req slot).status ∧
      ((s.clear slot).req slot).high = (s.req slot).high := by
    unfold PollHandle.clear
    rw [req_setReq]
    exact ⟨rfl, rfl⟩
  unfold uvSlowPollProcessPollReq at ht
  dsimp only at ht
  rw [hreq.1, hreq.2] at ht
  cases hstatus : (s.req slot).status with
  | some code =>
    rw [hstatus] at ht
    dsimp only at ht
    split_ifs at ht
    · cases ht
      cases hphase
      match outcome with
      | .selected (.failed e) => exact .inl (by rw [Option.some.inj (hstatus.symm.trans h)])
      | .selected (.returned r rfds wfds efds) => cases hstatus.symm.trans h.1
      | .notQueued e => exact .inr (by rw [Option.some.inj (hstatus.symm.trans h)])
    · cases (phase_afterPollCb ht).symm.trans hphase
  | none =>
    rw [hstatus] at ht
    have hreported := reportEvents_phase ht hphase
    have herror := error_reportEvents ht hphase
    subst hreported herror
    match outcome with
    | .selected (.failed e) => cases hstatus.symm.trans h
    | .selected (.returned r rfds wfds efds) =>
      refine ⟨_, rfl, ?_⟩
      rw [h.2]
      exact Finset.inter_subset_left
    | .notQueued e => cases hstatus.symm.trans h

/-- Every completion shows what the `select` of its thread returned, and nothing else is
reported. -/
theorem slowPoll_results (h : Reachable Init (Guarded Selects Step) s) (hslow : s.slow = true) :
    (∀ slot outcome, (s.req slot).work = .posted outcome → Carries (s.req slot) outcome) ∧
    ∀ slot result queueError t error events, Step s (.done slot result queueError) t →
      t.phase = .pollCb error events →
      ∃ outcome, (s.req slot).work = .posted outcome ∧ Reports outcome events error := by
  have hcarries : ∀ slot outcome, (s.req slot).work = .posted outcome →
      Carries (s.req slot) outcome := by
    intro slot outcome hwork
    have hfaithful := AllFaithful.of_reachable h slot
    rw [Faithful, hwork] at hfaithful
    exact hfaithful
  refine ⟨hcarries, ?_⟩
  intro slot result queueError t error events hst hphase
  rw [Step, PollHandle.step] at hst
  split_ifs at hst with henabled
  obtain ⟨outcome, hwork⟩ := exists_posted hslow henabled.2.1
  simp only [next, uvProcessPollReq, if_pos hslow] at hst
  exact ⟨outcome, hwork, reports_of_carries (hcarries slot outcome hwork) hst hphase⟩

/-- Two requests overlap; the thread of the first one has seen that the socket is readable. -/
def overlap : List Event :=
  [.start {.readable} none, .thread .one (.failed 1), .thread .one (.failed 1),
    .thread .one (.returned 1 true false false), .thread .one (.failed 1), .thread .one (.failed 1),
    .start {.writable} none, .thread .two (.failed 1), .thread .two (.failed 1)]

def overlapRun : Option PollHandle :=
  overlap.foldlM (fun s e => if Selects s e then s.step e else none) (fresh true)

theorem overlapRun_isSome : overlapRun.isSome = true := by
  rfl

theorem slowPoll_results_overlap : Carries ((overlapRun.get overlapRun_isSome).req .one)
    (.selected (.returned 1 true false false)) := by
  have hrun : Reachable Init (Guarded Selects Step) (overlapRun.get overlapRun_isSome) :=
    .of_foldlM_if (.init (fresh_init true)) (Option.some_get overlapRun_isSome).symm
  exact (slowPoll_results hrun (by decide)).1 .one _ (by decide)

/-- The `select` of the second request fails. -/
def failedRun : Option PollHandle :=
  (overlap ++ [Event.thread .two (.failed 10038), .thread .two (.failed 1), .thread .two (.failed 1)]).foldlM
    step (fresh true)

theorem failedRun_isSome : failedRun.isSome = true := by
  rfl

/-- The error is stored in the first request, whose `select` did not fail, and not in the second
one. -/
theorem error_in_wrong_request : ∃ s, Reachable Init Step s ∧ s.slow = true ∧
    s.req1.work = .posted (.selected (.returned 1 true false false)) ∧ s.req1.status = some 10038 ∧
    s.req2.work = .posted (.selected (.failed 10038)) ∧ s.req2.status = none := by
  refine ⟨failedRun.get failedRun_isSome,
    ?_, by decide, by decide, by decide,
    by decide, by decide⟩
  exact .of_foldlM (.init (fresh_init true)) (Option.some_get failedRun_isSome).symm

end LibuvWorks.Win.PollHandle
