import LibuvWorks.Win.PollHandle
import Mathlib.Data.Finset.Lattice.Lemmas

/-!
# The two requests of a poll handle

Between the steps of the loop every wanted event is covered by a request, or both requests are out.
The active flag follows the wanted events but for one case: an error empties them and leaves the
handle active, until the user starts, stops or closes it.
-/
namespace LibuvWorks.Win.PollHandle

open Transition Finset

variable {s t : PollHandle} {slot : ReqSlot} {e : Event} {queueError : Option ℕ}

/-! ### Requests by their slot -/

@[simp] theorem req_setReq (r : PollReq) : (s.setReq r slot).req slot = r := by cases slot <;> rfl

@[simp] theorem req_setReq_other (r : PollReq) :
    (s.setReq r slot).req slot.other = s.req slot.other := by
  cases slot <;> rfl

theorem eq_or_eq_other (slot i : ReqSlot) : i = slot ∨ i = slot.other := by
  cases slot <;> cases i <;> decide

def OnlyReqs (s t : PollHandle) : Prop := t = { s with req1 := t.req1, req2 := t.req2 }

theorem onlyReqs_setReq (s : PollHandle) (r : PollReq) (slot : ReqSlot) :
    OnlyReqs s (s.setReq r slot) := by
  cases slot <;> rfl

theorem OnlyReqs.trans {u : PollHandle} (hst : OnlyReqs s t) (htu : OnlyReqs t u) :
    OnlyReqs s u := by
  unfold OnlyReqs at hst htu ⊢
  rw [hst] at htu
  exact htu

/-! ### Submitting -/

structure Submits (slot : ReqSlot) (s t : PollHandle) : Prop where
  rest : OnlyReqs s t
  free : (s.req slot).submittedEvents = ∅
  events : (t.req slot).submittedEvents = s.events
  work : (t.req slot).work ≠ .idle
  otherEvents : (t.req slot.other).submittedEvents = (s.req slot.other).submittedEvents
  otherWork : (t.req slot.other).work = (s.req slot.other).work

theorem freeSlot_some (h : s.freeSlot = some slot) : (s.req slot).submittedEvents = ∅ := by
  unfold freeSlot at h
  split_ifs at h with hone htwo
  · cases h
    exact hone
  · cases h
    exact htwo

theorem freeSlot_none (h : s.freeSlot = none) :
    ∀ slot, (s.req slot).submittedEvents ≠ ∅ := by
  unfold freeSlot at h
  split_ifs at h with hone htwo
  intro slot
  cases slot with
  | one => exact hone
  | two => exact htwo

theorem onlyReqs_takeOver (s : PollHandle) (slot : ReqSlot) (r : PollReq) :
    OnlyReqs s ((s.takeOver slot).setReq r slot) :=
  ((onlyReqs_setReq s _ _).trans (onlyReqs_setReq _ _ _)).trans (onlyReqs_setReq _ _ _)

theorem submits_takeOver {r : PollReq} (hfree : s.freeSlot = some slot) (hwork : r.work ≠ .idle)
    (hevents : r.submittedEvents = s.events) :
    Submits slot s ((s.takeOver slot).setReq r slot) := by
  have hother : (s.takeOver slot).req slot.other =
      { s.req slot.other with maskEvents := s.events } := by
    cases slot <;> rfl
  constructor
  · exact onlyReqs_takeOver s slot r
  · exact freeSlot_some hfree
  · rw [req_setReq]
    exact hevents
  · rw [req_setReq]
    exact hwork
  · rw [req_setReq_other, hother]
  · rw [req_setReq_other, hother]

theorem events_takeOver (s : PollHandle) (slot : ReqSlot) :
    ((s.takeOver slot).req slot).submittedEvents = s.events := by
  cases slot <;> rfl

theorem submit_spec (queueError : Option ℕ)
    (hslow : s.slow = true → ∃ slot, (s.req slot).submittedEvents = ∅) :
    ∃ t, s.submit queueError = some t ∧
      ((∃ slot, Submits slot s t) ∨ t = s ∧ ∀ slot, (s.req slot).submittedEvents ≠ ∅) := by
  unfold submit uvSlowPollSubmitPollReq uvFastPollSubmitPollReq
  cases hfree : s.freeSlot with
  | none =>
    by_cases hmode : s.slow = true
    · obtain ⟨slot, hempty⟩ := hslow hmode
      exact absurd hempty (freeSlot_none hfree slot)
    · rw [if_neg hmode]
      exact ⟨s, rfl, .inr ⟨rfl, freeSlot_none hfree⟩⟩
  | some slot =>
    have hsubmits : ∀ {r : PollReq}, r.work ≠ .idle →
        r.submittedEvents = ((s.takeOver slot).req slot).submittedEvents →
        Submits slot s ((s.takeOver slot).setReq r slot) :=
      fun hwork hevents => submits_takeOver hfree hwork (hevents.trans (events_takeOver s slot))
    by_cases hmode : s.slow = true
    · rw [if_pos hmode]
      cases queueError with
      | none | some error => exact ⟨_, rfl, .inl ⟨slot, hsubmits nofun rfl⟩⟩
    · rw [if_neg hmode]
      exact ⟨_, rfl, .inl ⟨slot, hsubmits nofun rfl⟩⟩

/-! ### What holds of the handle -/

def slowEvents : Finset PollEvent := {.readable, .writable}

def BothOut (s : PollHandle) : Prop := ∀ slot, (s.req slot).submittedEvents ≠ ∅

structure Consistent (s : PollHandle) : Prop where
  work : ∀ slot, (s.req slot).work = .idle ↔ (s.req slot).submittedEvents = ∅
  closing : s.closing = true → s.events = ∅
  closed : s.closed = true → s.closing = true ∧ ∀ slot, (s.req slot).submittedEvents = ∅
  endgame : s.endgameQueued = true →
    s.closing = true ∧ s.closed = false ∧ ∀ slot, (s.req slot).submittedEvents = ∅
  slow : s.slow = true →
    s.events ⊆ slowEvents ∧ ∀ slot, (s.req slot).submittedEvents ⊆ slowEvents
  full : s.slow = true → s.BothOut →
    slowEvents ⊆ s.req1.submittedEvents ∪ s.req2.submittedEvents
  active : s.closing = false → s.unattended = false → (s.active = true ↔ s.events ≠ ∅)
  unattended : s.unattended = true → s.closing = false ∧ s.active = true ∧ s.events = ∅

def Covered (s : PollHandle) : Prop := s.uncovered = ∅ ∨ s.BothOut

namespace Consistent

theorem init (h : Init s) : Consistent s where
  work slot := iff_of_true (h.work slot) (h.submittedEvents slot)
  closing _ := h.events
  closed habs := by cases h.closed.symm.trans habs
  endgame habs := by cases h.endgameQueued.symm.trans habs
  slow _ := by
    refine ⟨?_, fun slot => ?_⟩
    · rw [h.events]
      exact empty_subset _
    · rw [h.submittedEvents]
      exact empty_subset _
  full _ hboth := absurd (h.submittedEvents .one) (hboth .one)
  active _ _ := by
    rw [h.active, h.events]
    decide
  unattended habs := by cases h.unattended.symm.trans habs

theorem exists_free (h : Consistent s) (hne : s.uncovered ≠ ∅) (hslow : s.slow = true) :
    ∃ slot, (s.req slot).submittedEvents = ∅ := by
  by_contra hnone
  apply hne
  apply sdiff_eq_empty_iff_subset.mpr
  exact (h.slow hslow).1.trans (h.full hslow (not_exists.mp hnone))

theorem union_comm (s : PollHandle) (slot : ReqSlot) :
    s.req1.submittedEvents ∪ s.req2.submittedEvents =
      (s.req slot).submittedEvents ∪ (s.req slot.other).submittedEvents := by
  cases slot with
  | one => rfl
  | two => exact Finset.union_comm _ _

theorem eq_or_eq_of_mem (a b e : PollEvent) : a ∈ slowEvents → b ∈ slowEvents → a ≠ b →
    e ∈ slowEvents → e = a ∨ e = b := by
  cases a <;> cases b <;> cases e <;> decide

section

variable (h : Consistent s)
include h

/-- A request is submitted for an event that the other one does not wait for. -/
theorem submits (hne : s.uncovered ≠ ∅) (ht : Submits slot s t) :
    Consistent t ∧ Covered t := by
  obtain ⟨e, he⟩ := nonempty_iff_ne_empty.mpr hne
  rw [uncovered, union_comm s slot, ht.free, empty_union, mem_sdiff] at he
  have hevents : s.events ≠ ∅ := ne_empty_of_mem he.1
  have hclosing : s.closing = false := by
    by_contra hset
    exact hevents (h.closing (by simpa using hset))
  obtain ⟨-, -, hsubmitted, hwork, hother, hotherWork⟩ := id ht
  have hrest := ht.rest
  have hunion : t.req1.submittedEvents ∪ t.req2.submittedEvents =
      s.events ∪ (s.req slot.other).submittedEvents := by
    rw [union_comm t slot, hsubmitted, hother]
  have hsame : t.events = s.events ∧ t.closing = s.closing ∧ t.slow = s.slow := by
    rw [hrest]
    exact ⟨rfl, rfl, rfl⟩
  constructor
  · refine ⟨fun i => ?_, fun habs => ?_, fun habs => ?_, fun habs => ?_, fun hslow => ?_,
      fun hslow hboth => ?_, ?_, ?_⟩
    · rcases eq_or_eq_other slot i with rfl | rfl
      · rw [hsubmitted]
        exact iff_of_false hwork hevents
      · rw [hother, hotherWork]
        exact h.work _
    · rw [hsame.2.1, hclosing] at habs
      cases habs
    · rw [hrest] at habs
      have hset := (h.closed habs).1
      cases hclosing.symm.trans hset
    · rw [hrest] at habs
      have hset := (h.endgame habs).1
      cases hclosing.symm.trans hset
    · rw [hsame.2.2] at hslow
      obtain ⟨hall, hreqs⟩ := h.slow hslow
      refine ⟨?_, fun i => ?_⟩
      · rw [hsame.1]
        exact hall
      · rcases eq_or_eq_other slot i with rfl | rfl
        · rw [hsubmitted]
          exact hall
        · rw [hother]
          exact hreqs _
    · -- The new events have one that the other request does not wait for, and it waits for one.
      rw [hsame.2.2] at hslow
      obtain ⟨hall, hreqs⟩ := h.slow hslow
      obtain ⟨b, hb⟩ := nonempty_iff_ne_empty.mpr (hboth slot.other)
      rw [hother] at hb
      have hdiff : e ≠ b := fun heq => he.2 (heq ▸ hb)
      intro x hx
      rw [hunion, mem_union]
      rcases eq_or_eq_of_mem e b x (hall he.1) (hreqs _ hb) hdiff hx with rfl | rfl
      · exact .inl he.1
      · exact .inr hb
    · rw [hrest]
      exact h.active
    · rw [hrest]
      exact h.unattended
  · left
    rw [uncovered, hunion, hsame.1, sdiff_eq_empty_iff_subset]
    exact subset_union_left

theorem submit (hne : s.uncovered ≠ ∅) (queueError : Option ℕ) :
    ∃ t, s.submit queueError = some t ∧ Consistent t ∧ Covered t ∧ OnlyReqs s t := by
  obtain ⟨t, ht, ⟨slot, hsubmits⟩ | ⟨rfl, hboth⟩⟩ :=
    submit_spec queueError (h.exists_free hne)
  · exact ⟨t, ht, (h.submits hne hsubmits).1, (h.submits hne hsubmits).2, hsubmits.rest⟩
  · exact ⟨t, ht, h, .inr hboth, rfl⟩

theorem setPhase (phase : PollPhase) : Consistent { s with phase } :=
  { h with }

theorem wantEndgame (hclosing : s.closing = true) (hclosed : s.closed = false)
    (hreqs : ∀ slot, (s.req slot).submittedEvents = ∅) : Consistent s.uvWantEndgame :=
  { h with endgame := fun _ => ⟨hclosing, hclosed, hreqs⟩ }

theorem clear (slot : ReqSlot) : Consistent (s.clear slot) := by
  have hreq : ∀ i, ((s.clear slot).req i).submittedEvents ⊆ (s.req i).submittedEvents := by
    intro i
    unfold PollHandle.clear
    rcases eq_or_eq_other slot i with rfl | rfl
    · rw [req_setReq]
      exact empty_subset _
    · rw [req_setReq_other]
  have hempty : (∀ i, (s.req i).submittedEvents = ∅) → ∀ i,
      ((s.clear slot).req i).submittedEvents = ∅ :=
    fun hall i => subset_empty.mp (hall i ▸ hreq i)
  have hrest : OnlyReqs s (s.clear slot) := onlyReqs_setReq s _ slot
  constructor
  · intro i
    unfold PollHandle.clear
    rcases eq_or_eq_other slot i with rfl | rfl
    · rw [req_setReq]
      exact iff_of_true rfl rfl
    · rw [req_setReq_other]
      exact h.work _
  · rw [hrest]
    exact h.closing
  · intro habs
    rw [hrest] at habs
    obtain ⟨hclosing, hall⟩ := h.closed habs
    refine ⟨?_, hempty hall⟩
    rw [hrest]
    exact hclosing
  · intro habs
    rw [hrest] at habs
    obtain ⟨hclosing, hclosed, hall⟩ := h.endgame habs
    refine ⟨?_, ?_, hempty hall⟩
    · rw [hrest]
      exact hclosing
    · rw [hrest]
      exact hclosed
  · intro hslow
    rw [hrest] at hslow
    obtain ⟨hevents, hreqs⟩ := h.slow hslow
    refine ⟨?_, fun i => (hreq i).trans (hreqs i)⟩
    rw [hrest]
    exact hevents
  · intro _ hboth
    apply absurd _ (hboth slot)
    unfold PollHandle.clear
    rw [req_setReq]
  · rw [hrest]
    exact h.active
  · rw [hrest]
    exact h.unattended

theorem reportError (hne : s.events ≠ ∅) (error : ℕ) :
    Consistent (s.reportError error) := by
  have hclosing : s.closing = false := by
    by_contra hset
    exact hne (h.closing (by simpa using hset))
  have hunattended : s.unattended = false := by
    by_contra hset
    exact hne (h.unattended (by simpa using hset)).2.2
  have hactive := (h.active hclosing hunattended).mpr hne
  exact {
    work := h.work
    closing := fun _ => rfl
    closed := h.closed
    endgame := h.endgame
    slow := fun hslow => ⟨empty_subset _, (h.slow hslow).2⟩
    full := h.full
    active := nofun
    unattended := fun _ => ⟨hclosing, hactive, rfl⟩ }

theorem stopped :
    Consistent { s with events := ∅, active := false, unattended := false } where
  work := h.work
  closing _ := rfl
  closed := h.closed
  endgame := h.endgame
  slow hslow := ⟨empty_subset _, (h.slow hslow).2⟩
  full := h.full
  active _ _ := iff_of_false Bool.false_ne_true (not_not.mpr rfl)
  unattended := nofun

end

end Consistent

structure Settled (s : PollHandle) : Prop where
  consistent : Consistent s
  covered : s.phase = .idle → Covered s
  opened : s.phase ≠ .idle → s.closed = false

namespace Settled

variable {events : Finset PollEvent}

theorem of_covered (h : Consistent s) (hcovered : Covered s) (hphase : s.phase = .idle) :
    Settled s :=
  ⟨h, fun _ => hcovered, fun hne => absurd hphase hne⟩

theorem afterPollCb (h : Consistent s) (hclosed : s.closed = false) (queueError : Option ℕ) :
    ∃ t, s.afterPollCb queueError = some t ∧ Settled t ∧ t.unattended = s.unattended := by
  unfold PollHandle.afterPollCb
  have hidle := h.setPhase .idle
  dsimp only
  split_ifs with hne hdone
  · obtain ⟨t, ht, hconsistent, hcovered, hrest⟩ := hidle.submit hne queueError
    refine ⟨t, ht, .of_covered hconsistent hcovered ?_, ?_⟩
    · rw [hrest]
    · rw [hrest]
  · obtain ⟨hclosing, hone, htwo⟩ := hdone
    have hreqs : ∀ slot, (s.req slot).submittedEvents = ∅
      | .one => hone
      | .two => htwo
    have hqueued := hidle.wantEndgame hclosing hclosed hreqs
    exact ⟨_, rfl, .of_covered hqueued (.inl (not_not.mp hne)) rfl, rfl⟩
  · exact ⟨_, rfl, .of_covered hidle (.inl (not_not.mp hne)) rfl, rfl⟩

theorem reportEvents (h : Consistent s) (hclosed : s.closed = false) (queueError : Option ℕ) :
    ∃ t, s.reportEvents queueError events = some t ∧ Settled t ∧ t.unattended = s.unattended := by
  unfold PollHandle.reportEvents
  split_ifs
  · exact ⟨_, rfl, ⟨h.setPhase _, nofun, fun _ => hclosed⟩, rfl⟩
  · exact afterPollCb h hclosed queueError

theorem reportError (h : Consistent s) (hclosed : s.closed = false) (hne : s.events ≠ ∅)
    (error : ℕ) :
    Settled (s.reportError error) :=
  ⟨h.reportError hne error, nofun, fun _ => hclosed⟩

theorem not_closed (h : Consistent s) (hdone : s.isDone slot = true) :
    (s.clear slot).closed = false := by
  have hrest : OnlyReqs s (s.clear slot) := onlyReqs_setReq s _ slot
  rw [hrest]
  by_contra hset
  obtain ⟨-, hall⟩ := h.closed (by simpa using hset)
  have hidle := (h.work slot).mpr (hall slot)
  rw [isDone, hidle] at hdone
  cases hdone

theorem unattended_clear (s : PollHandle) (slot : ReqSlot) :
    (s.clear slot).unattended = s.unattended := by
  cases slot <;> rfl

theorem uvFastPollProcessPollReq {result : AfdResult} (h : Consistent s)
    (hdone : s.isDone slot = true) :
    ∃ t, s.uvFastPollProcessPollReq slot result = some t ∧ Settled t ∧
      (s.unattended = false → t.phase = .idle → t.unattended = false) := by
  have hclear := h.clear slot
  have hclosed := not_closed h hdone
  have hsame := unattended_clear s slot
  unfold PollHandle.uvFastPollProcessPollReq
  cases result with
  | failed error =>
    dsimp only
    split_ifs with herror
    · exact ⟨_, rfl, reportError hclear hclosed herror.2 error, nofun⟩
    · obtain ⟨t, ht, hsettled, hold⟩ := afterPollCb hclear hclosed none
      exact ⟨t, ht, hsettled, fun hattended _ => hold.trans (hsame.trans hattended)⟩
  | polled numberOfHandles afd =>
    dsimp only
    by_cases hnumber : 1 ≤ numberOfHandles
    · rw [if_pos hnumber]
      by_cases hlocal : .localClose ∈ afd
      · rw [if_pos hlocal]
        obtain ⟨t, ht, hsettled, hold⟩ := reportEvents hclear.stopped hclosed none
        exact ⟨t, ht, hsettled, fun _ _ => hold⟩
      · rw [if_neg hlocal]
        obtain ⟨t, ht, hsettled, hold⟩ := reportEvents hclear hclosed none
        exact ⟨t, ht, hsettled, fun hattended _ => hold.trans (hsame.trans hattended)⟩
    · rw [if_neg hnumber]
      obtain ⟨t, ht, hsettled, hold⟩ := afterPollCb hclear hclosed none
      exact ⟨t, ht, hsettled, fun hattended _ => hold.trans (hsame.trans hattended)⟩

theorem uvSlowPollProcessPollReq (h : Consistent s) (hdone : s.isDone slot = true) :
    ∃ t, s.uvSlowPollProcessPollReq slot queueError = some t ∧ Settled t ∧
      (s.unattended = false → t.phase = .idle → t.unattended = false) := by
  have hclear := h.clear slot
  have hclosed := not_closed h hdone
  have hsame := unattended_clear s slot
  unfold PollHandle.uvSlowPollProcessPollReq
  dsimp only
  cases ((s.clear slot).req slot).status with
  | some error =>
    dsimp only
    split_ifs with hne
    · exact ⟨_, rfl, reportError hclear hclosed hne error, nofun⟩
    · obtain ⟨t, ht, hsettled, hold⟩ := afterPollCb hclear hclosed queueError
      exact ⟨t, ht, hsettled, fun hattended _ => hold.trans (hsame.trans hattended)⟩
  | none =>
    obtain ⟨t, ht, hsettled, hold⟩ := reportEvents hclear hclosed queueError
    exact ⟨t, ht, hsettled, fun hattended _ => hold.trans (hsame.trans hattended)⟩

theorem pollSet {allowed : Finset PollEvent} (h : Settled s) (hclosing : s.closing = false)
    (hallowed : events ⊆ allowed) (hslow : s.slow = true → events ⊆ slowEvents) :
    ∃ t, s.pollSet allowed events queueError = some t ∧ Settled t ∧ t.unattended = false := by
  have hset : Consistent { s with events, active := events ≠ ∅, unattended := false } := {
    work := h.consistent.work
    closing := fun habs => by cases hclosing.symm.trans habs
    closed := h.consistent.closed
    endgame := h.consistent.endgame
    slow := fun hmode => ⟨hslow hmode, (h.consistent.slow hmode).2⟩
    full := h.consistent.full
    active := fun _ _ => by simp
    unattended := nofun }
  unfold PollHandle.pollSet
  rw [if_neg (by simp [hclosing]), if_neg (not_not.mpr hallowed)]
  dsimp only
  split_ifs with hne
  · obtain ⟨t, ht, hconsistent, hcovered, hrest⟩ := hset.submit hne queueError
    refine ⟨t, ht, ⟨hconsistent, fun _ => hcovered, ?_⟩, ?_⟩
    · rw [hrest]
      exact h.opened
    · rw [hrest]
  · exact ⟨_, rfl, ⟨hset, fun _ => .inl (not_not.mp hne), h.opened⟩, rfl⟩

theorem uvPollStart (h : Settled s) (hclosing : s.closing = false)
    (hslow : s.slow = true → .disconnect ∉ events) :
    ∃ t, s.uvPollStart events queueError = some t ∧ Settled t ∧ t.unattended = false := by
  unfold PollHandle.uvPollStart
  by_cases hmode : s.slow = true
  · rw [if_pos hmode]
    have hallowed : events ⊆ slowEvents := by
      intro e he
      have hne : e ≠ .disconnect := fun heq => hslow hmode (heq ▸ he)
      cases e <;> first | decide | exact absurd rfl hne
    exact h.pollSet hclosing hallowed fun _ => hallowed
  · rw [if_neg hmode]
    have hallowed : events ⊆ {.readable, .writable, .disconnect} := by
      intro e _
      cases e <;> decide
    exact h.pollSet hclosing hallowed fun habs => absurd habs hmode

theorem uvPollStop (h : Settled s) (hclosing : s.closing = false) :
    ∃ t, s.uvPollStop = some t ∧ Settled t ∧ t.unattended = false := by
  unfold PollHandle.uvPollStop
  split_ifs
  · exact h.pollSet hclosing (empty_subset _) fun _ => empty_subset _
  · exact h.pollSet hclosing (empty_subset _) fun _ => empty_subset _

theorem uvPollClose (h : Settled s) (hclosing : s.closing = false) :
    ∃ t, s.uvPollClose = some t ∧ Settled t ∧ t.unattended = false := by
  have hclosed : s.closed = false := by
    by_contra hset
    cases hclosing.symm.trans (h.consistent.closed (by simpa using hset)).1
  have hclose : Consistent { s with
      events := ∅, closing := true, active := false, unattended := false } := {
    work := h.consistent.work
    closing := fun _ => rfl
    closed := fun habs => by cases hclosed.symm.trans habs
    endgame := fun habs => ⟨rfl, hclosed, (h.consistent.endgame habs).2.2⟩
    slow := fun hmode => ⟨empty_subset _, (h.consistent.slow hmode).2⟩
    full := h.consistent.full
    active := nofun
    unattended := nofun }
  have hcovered : Covered { s with
      events := ∅, closing := true, active := false, unattended := false } :=
    .inl (empty_sdiff _)
  unfold PollHandle.uvPollClose
  rw [if_neg (by simp [hclosing])]
  dsimp only
  split_ifs with hdone
  · have hreqs : ∀ slot, (s.req slot).submittedEvents = ∅
      | .one => hdone.1
      | .two => hdone.2
    exact ⟨_, rfl, ⟨hclose.wantEndgame rfl hclosed hreqs, fun _ => hcovered, fun _ => hclosed⟩, rfl⟩
  · exact ⟨_, rfl, ⟨hclose, fun _ => hcovered, fun _ => hclosed⟩, rfl⟩

theorem uvPollEndgame (h : Settled s) (hphase : s.phase = .idle)
    (hqueued : s.endgameQueued = true) :
    ∃ t, s.uvPollEndgame = some t ∧ Settled t ∧ t.unattended = false := by
  obtain ⟨hclosing, hclosed, hreqs⟩ := h.consistent.endgame hqueued
  have hunattended : s.unattended = false := by
    by_contra hset
    cases hclosing.symm.trans (h.consistent.unattended (by simpa using hset)).1
  have hone : s.req1.submittedEvents = ∅ := hreqs .one
  have htwo : s.req2.submittedEvents = ∅ := hreqs .two
  have hdone : Consistent { s with endgameQueued := false, closed := true } := {
    work := h.consistent.work
    closing := h.consistent.closing
    closed := fun _ => ⟨hclosing, hreqs⟩
    endgame := nofun
    slow := h.consistent.slow
    full := h.consistent.full
    active := h.consistent.active
    unattended := h.consistent.unattended }
  unfold PollHandle.uvPollEndgame
  dsimp only
  rw [if_neg (by simp [hclosing, hclosed, hone, htwo])]
  exact ⟨_, rfl, .of_covered hdone (h.covered hphase) hphase, hunattended⟩

end Settled

/-! ### The threads -/

structure SameWaits (s t : PollHandle) : Prop where
  rest : OnlyReqs s t
  events : ∀ slot, (t.req slot).submittedEvents = (s.req slot).submittedEvents
  work : ∀ slot, (t.req slot).work = .idle ↔ (s.req slot).work = .idle

theorem SameWaits.trans {u : PollHandle} (hst : SameWaits s t) (htu : SameWaits t u) :
    SameWaits s u :=
  ⟨hst.rest.trans htu.rest, fun slot => (htu.events slot).trans (hst.events slot),
    fun slot => (htu.work slot).trans (hst.work slot)⟩

theorem sameWaits_setReq (slot : ReqSlot) {r : PollReq}
    (hevents : r.submittedEvents = (s.req slot).submittedEvents)
    (hwork : r.work = .idle ↔ (s.req slot).work = .idle) : SameWaits s (s.setReq r slot) := by
  refine ⟨onlyReqs_setReq s r slot, fun i => ?_, fun i => ?_⟩
  · rcases eq_or_eq_other slot i with rfl | rfl
    · rw [req_setReq]
      exact hevents
    · rw [req_setReq_other]
  · rcases eq_or_eq_other slot i with rfl | rfl
    · rw [req_setReq]
      exact hwork
    · rw [req_setReq_other]

theorem sameWaits_store (s : PollHandle) (slot : ReqSlot) (result : SelectResult) :
    SameWaits s (s.store slot result) := by
  cases result with
  | failed error => exact sameWaits_setReq .one rfl Iff.rfl
  | returned => exact sameWaits_setReq slot rfl Iff.rfl

theorem sameWaits_threadProc (result : SelectResult) (hrunning : s.running slot = true) :
    SameWaits s (s.uvSlowPollThreadProc slot result) := by
  have hne : (s.req slot).work ≠ .idle := by
    intro habs
    rw [running, habs] at hrunning
    cases hrunning
  have hmove : ∀ {work}, work ≠ .idle → SameWaits s (s.setReq { s.req slot with work } slot) :=
    fun hwork => sameWaits_setReq slot rfl (iff_of_false hwork hne)
  unfold PollHandle.uvSlowPollThreadProc
  split
  · exact hmove nofun
  · exact hmove nofun
  · exact hmove nofun
  · rename_i result hwork
    have hstore := sameWaits_store s slot result
    apply hstore.trans
    exact sameWaits_setReq slot rfl (iff_of_false nofun fun habs => hne ((hstore.work slot).mp habs))
  · exact hmove nofun
  · exact ⟨rfl, fun _ => rfl, fun _ => Iff.rfl⟩

theorem SameWaits.settled (h : SameWaits s t) (hs : Settled s) : Settled t := by
  have hrest := h.rest
  have hone : t.req1.submittedEvents = s.req1.submittedEvents := h.events .one
  have htwo : t.req2.submittedEvents = s.req2.submittedEvents := h.events .two
  have hboth : BothOut t ↔ BothOut s := forall_congr' fun slot => by rw [h.events]
  have hall : (∀ slot, (s.req slot).submittedEvents = ∅) → ∀ slot,
      (t.req slot).submittedEvents = ∅ :=
    fun hempty slot => (h.events slot).trans (hempty slot)
  have hsame : t.events = s.events ∧ t.closing = s.closing ∧ t.closed = s.closed ∧ t.slow = s.slow ∧
      t.phase = s.phase := by
    rw [hrest]
    exact ⟨rfl, rfl, rfl, rfl, rfl⟩
  obtain ⟨hevents, hclosing, hclosed, hslow, hphase⟩ := hsame
  have hc := hs.consistent
  refine ⟨⟨fun slot => ?_, ?_, fun habs => ?_, fun habs => ?_, fun habs => ?_, fun habs hout => ?_,
    ?_, ?_⟩, fun hidle => ?_, ?_⟩
  · rw [h.work, h.events]
    exact hc.work slot
  · rw [hclosing, hevents]
    exact hc.closing
  · rw [hclosed] at habs
    rw [hclosing]
    exact ⟨(hc.closed habs).1, hall (hc.closed habs).2⟩
  · rw [hrest] at habs
    rw [hclosing, hclosed]
    obtain ⟨hset, hopen, hempty⟩ := hc.endgame habs
    exact ⟨hset, hopen, hall hempty⟩
  · rw [hslow] at habs
    rw [hevents]
    refine ⟨(hc.slow habs).1, fun slot => ?_⟩
    rw [h.events]
    exact (hc.slow habs).2 slot
  · rw [hslow] at habs
    rw [hone, htwo]
    exact hc.full habs (hboth.mp hout)
  · rw [hrest]
    exact hc.active
  · rw [hrest]
    exact hc.unattended
  · rw [hphase] at hidle
    unfold Covered uncovered
    rw [hevents, hone, htwo, hboth]
    exact hs.covered hidle
  · rw [hphase, hclosed]
    exact hs.opened

/-! ### Every run -/

/-- What the handle asks of the callback that is told an error: it starts, stops or closes the
handle. -/
def Careful (s : PollHandle) : Event → Prop
  | .returned _ => s.unattended = false
  | _ => True

instance (s : PollHandle) (e : Event) : Decidable (Careful s e) := by
  induction e using Event.casesOn <;> dsimp only [Careful] <;> infer_instance

theorem Settled.next (h : Settled s) (henabled : s.Enabled e) :
    ∃ t, s.next e = some t ∧ Settled t ∧
      (Careful s e → (s.phase = .idle → s.unattended = false) →
        t.phase = .idle → t.unattended = false) := by
  cases e with
  | done slot result queueError =>
    have hprocess : ∃ t, s.uvProcessPollReq slot result queueError = some t ∧ Settled t ∧
        (s.unattended = false → t.phase = .idle → t.unattended = false) := by
      unfold uvProcessPollReq
      split_ifs
      · exact Settled.uvSlowPollProcessPollReq h.consistent henabled.2.1
      · exact Settled.uvFastPollProcessPollReq h.consistent henabled.2.1
    obtain ⟨t, ht, hsettled, hattended⟩ := hprocess
    exact ⟨t, ht, hsettled, fun _ hidle => hattended (hidle henabled.1)⟩
  | returned queueError =>
    obtain ⟨t, ht, hsettled, hsame⟩ :=
      Settled.afterPollCb h.consistent (h.opened henabled.1) queueError
    exact ⟨t, ht, hsettled, fun hcareful _ _ => hsame.trans hcareful⟩
  | endgame =>
    obtain ⟨t, ht, hsettled, hattended⟩ := h.uvPollEndgame henabled.1 henabled.2
    exact ⟨t, ht, hsettled, fun _ _ _ => hattended⟩
  | start events queueError =>
    obtain ⟨t, ht, hsettled, hattended⟩ := h.uvPollStart henabled.1 henabled.2.1
    exact ⟨t, ht, hsettled, fun _ _ _ => hattended⟩
  | stop =>
    obtain ⟨t, ht, hsettled, hattended⟩ := h.uvPollStop henabled
    exact ⟨t, ht, hsettled, fun _ _ _ => hattended⟩
  | close =>
    obtain ⟨t, ht, hsettled, hattended⟩ := h.uvPollClose henabled
    exact ⟨t, ht, hsettled, fun _ _ _ => hattended⟩
  | thread slot result =>
    have hsame := sameWaits_threadProc result henabled.1
    refine ⟨_, rfl, hsame.settled h, fun _ => ?_⟩
    change (_ → _) → (s.uvSlowPollThreadProc slot result).phase = _ →
      (s.uvSlowPollThreadProc slot result).unattended = _
    rw [hsame.rest]
    exact id

theorem Settled.init (h : Init s) : Settled s := by
  refine .of_covered (.init h) (.inl ?_) h.phase
  rw [uncovered, h.events]
  exact empty_sdiff _

theorem settled_of_reachable (h : Reachable Init Step s) : Settled s := by
  apply h.invariant_of_next
  · exact fun s hs => .init hs
  · intro s e hs henabled
    obtain ⟨t, ht, hsettled, -⟩ := hs.next henabled
    exact ⟨t, ht, hsettled⟩

theorem attended_of_reachable (h : Reachable Init (Guarded Careful Step) s)
    (hidle : s.phase = .idle) :
    s.unattended = false := by
  have hrun : Settled s ∧ (s.phase = .idle → s.unattended = false) := by
    apply h.invariant_of_guarded
    · exact fun s hs => ⟨.init hs, fun _ => hs.unattended⟩
    · rintro s e ⟨hsettled, hattended⟩ henabled hcareful
      obtain ⟨t, ht, hsettled', hkeep⟩ := hsettled.next henabled
      exact ⟨t, ht, hsettled', hkeep hcareful hattended⟩
  exact hrun.2 hidle

/-! ### What is reported -/

theorem onlyReqs_submit (ht : s.submit queueError = some t) : OnlyReqs s t := by
  unfold submit uvSlowPollSubmitPollReq uvFastPollSubmitPollReq at ht
  cases hfree : s.freeSlot with
  | none =>
    rw [hfree] at ht
    dsimp only at ht
    split_ifs at ht
    cases ht
    rfl
  | some slot =>
    rw [hfree] at ht
    dsimp only at ht
    split_ifs at ht
    · cases queueError with
      | none | some error =>
        cases ht
        exact onlyReqs_takeOver s slot _
    · cases ht
      exact onlyReqs_takeOver s slot _

theorem phase_afterPollCb (ht : s.afterPollCb queueError = some t) : t.phase = .idle := by
  unfold PollHandle.afterPollCb at ht
  dsimp only at ht
  split_ifs at ht
  · rw [onlyReqs_submit ht]
  · cases ht
    rfl
  · cases ht
    rfl

theorem reportEvents_phase {error : Option ℕ} {events reported : Finset PollEvent}
    (ht : s.reportEvents queueError events = some t) (hphase : t.phase = .pollCb error reported) :
    reported = events := by
  unfold PollHandle.reportEvents at ht
  split_ifs at ht
  · cases ht
    cases hphase
    rfl
  · cases (phase_afterPollCb ht).symm.trans hphase

theorem events_clear (s : PollHandle) (slot : ReqSlot) : (s.clear slot).events = s.events := by
  cases slot <;> rfl

/-- A request that has ended reports an error, or some of the events that are wanted and that it has
not masked, or nothing. -/
theorem uvProcessPollReq_cases {result : AfdResult}
    (ht : s.uvProcessPollReq slot result queueError = some t) :
    (∃ error, t = (s.clear slot).reportError error) ∨
    (∃ queueError', (s.clear slot).afterPollCb queueError' = some t) ∨
    ∃ u queueError' events, (u = s.clear slot ∨
        u = { s.clear slot with events := ∅, active := false, unattended := false }) ∧
      u.reportEvents queueError' (events ∩ ((s.clear slot).events \ (s.req slot).maskEvents)) =
        some t := by
  unfold uvProcessPollReq at ht
  by_cases hslow : s.slow = true
  · rw [if_pos hslow, PollHandle.uvSlowPollProcessPollReq] at ht
    cases hstatus : ((s.clear slot).req slot).status with
    | some error =>
      rw [hstatus] at ht
      dsimp only at ht
      split_ifs at ht
      · cases ht
        exact .inl ⟨error, rfl⟩
      · exact .inr (.inl ⟨queueError, ht⟩)
    | none =>
      rw [hstatus] at ht
      exact .inr (.inr ⟨_, queueError, _, .inl rfl, ht⟩)
  · rw [if_neg hslow] at ht
    unfold PollHandle.uvFastPollProcessPollReq at ht
    cases result with
    | failed error =>
      dsimp only at ht
      split_ifs at ht
      · cases ht
        exact .inl ⟨error, rfl⟩
      · exact .inr (.inl ⟨none, ht⟩)
    | polled numberOfHandles afd =>
      dsimp only at ht
      split_ifs at ht
      · exact .inr (.inr ⟨_, none, _, .inr rfl, ht⟩)
      · exact .inr (.inr ⟨_, none, _, .inl rfl, ht⟩)
      · exact .inr (.inl ⟨none, ht⟩)

theorem reported_subset {result : AfdResult} {error : Option ℕ} {reported : Finset PollEvent}
    (ht : s.uvProcessPollReq slot result queueError = some t)
    (hphase : t.phase = .pollCb error reported) : reported ⊆ s.events := by
  rcases uvProcessPollReq_cases ht with ⟨error, rfl⟩ | ⟨_, hafter⟩ | ⟨u, _, events, -, hreport⟩
  · cases hphase
    exact empty_subset _
  · cases (phase_afterPollCb hafter).symm.trans hphase
  · rw [reportEvents_phase hreport hphase, events_clear]
    exact inter_subset_right.trans sdiff_subset

/-! ### What the two bit sets keep -/

/-- Between the steps of the loop, and at each of them. -/
theorem pollHandle_covered (h : Reachable Init (Guarded Careful Step) s) :
    (s.phase = .idle → s.closing = false → (s.active = true ↔ s.events ≠ ∅)) ∧
    (s.phase = .idle →
      (∀ event ∈ s.events, ∃ slot, (s.req slot).work ≠ .idle ∧ event ∈ (s.req slot).submittedEvents) ∨
      ∀ slot, (s.req slot).work ≠ .idle) ∧
    (∀ slot result queueError t error reported, Step s (.done slot result queueError) t →
      t.phase = .pollCb error reported → reported ⊆ s.events) ∧
    (∀ e, s.Enabled e → ∃ t, s.next e = some t) ∧
    (s.endgameQueued = true → ∀ slot, (s.req slot).work = .idle) := by
  have hrun : Reachable Init Step s := h.mono fun _ _ _ hst => hst.2
  have hs := settled_of_reachable hrun
  have hc := hs.consistent
  refine ⟨fun hidle hclosing => ?_, fun hidle => ?_, ?_, fun e henabled => ?_,
    fun hqueued slot => ?_⟩
  · exact hc.active hclosing (attended_of_reachable h hidle)
  · rcases hs.covered hidle with hcovered | hboth
    · left
      intro event hevent
      have hmem := Finset.sdiff_eq_empty_iff_subset.mp hcovered hevent
      rcases Finset.mem_union.mp hmem with hone | htwo
      · exact ⟨.one, fun habs => Finset.ne_empty_of_mem hone ((hc.work .one).mp habs), hone⟩
      · exact ⟨.two, fun habs => Finset.ne_empty_of_mem htwo ((hc.work .two).mp habs), htwo⟩
    · exact .inr fun slot habs => hboth slot ((hc.work slot).mp habs)
  · intro slot result queueError t error reported hst hphase
    rw [Step, PollHandle.step] at hst
    split_ifs at hst
    exact reported_subset hst hphase
  · obtain ⟨t, ht, -⟩ := hs.next henabled
    exact ⟨t, ht⟩
  · exact (hc.work slot).mpr ((hc.endgame hqueued).2.2 slot)

/-- A handle after `uv_poll_init_socket`. -/
def fresh (slow : Bool) : PollHandle where
  slow := slow
  events := ∅
  req1 := ⟨∅, ∅, none, ∅, .idle⟩
  req2 := ⟨∅, ∅, none, ∅, .idle⟩
  active := false
  closing := false
  endgameQueued := false
  closed := false
  phase := .idle
  unattended := false

theorem fresh_init (slow : Bool) : Init (fresh slow) where
  events := rfl
  submittedEvents slot := by cases slot <;> rfl
  status slot := by cases slot <;> rfl
  work slot := by cases slot <;> rfl
  active := rfl
  closing := rfl
  endgameQueued := rfl
  closed := rfl
  phase := rfl
  unattended := rfl

def attendedRun : Option PollHandle :=
  [Event.start {.readable} none, .done .one (.failed 10054) none, .stop, .returned none].foldlM
    (fun s e => if Careful s e then s.step e else none) (fresh false)

theorem attendedRun_isSome : attendedRun.isSome = true := by
  rfl

theorem pollHandle_covered_attended : (attendedRun.get attendedRun_isSome).active = true ↔
    (attendedRun.get attendedRun_isSome).events ≠ ∅ := by
  have hrun : Reachable Init (Guarded Careful Step) (attendedRun.get attendedRun_isSome) :=
    .of_foldlM_if (.init (fresh_init false)) (Option.some_get attendedRun_isSome).symm
  exact (pollHandle_covered hrun).1 (by decide) (by decide)

def resetRun : Option PollHandle :=
  [Event.start {.readable} none, .done .one (.failed 10054) none,
    .returned none].foldlM step (fresh false)

theorem resetRun_isSome : resetRun.isSome = true := by
  rfl

/-- After an error the handle is active though it wants nothing. -/
theorem active_without_events : ∃ s, Reachable Init Step s ∧ s.phase = .idle ∧ s.closing = false ∧
    s.active = true ∧ s.events = ∅ := by
  refine ⟨resetRun.get resetRun_isSome, ?_, by decide, by decide, by decide,
    by decide⟩
  exact .of_foldlM (.init (fresh_init false)) (Option.some_get resetRun_isSome).symm

end LibuvWorks.Win.PollHandle
