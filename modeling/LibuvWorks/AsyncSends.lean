import LibuvWorks.Unix.AsyncSends
import LibuvWorks.Win.AsyncSends

/-!
# Wake-ups

What `uv_async_send` promises on both backends. A send that sees the flag set relies on the thread
that has set it, and on the visit that will clear it.
-/
namespace LibuvWorks

open Transition

variable {ι : Type*} [DecidableEq ι]

/-- If a flag is set, a wake-up is outstanding or the scan has yet to visit the handle, on Windows
a closed handle has no packet, and no assertion fails. If the loop goes on, and the calls that will
write or post do, every call that has returned is followed by a start of the callback that is later
than the begin of the call, unless the handle is closed first. -/
theorem sends_answered (fd : Unix.WakeUpFd) {batch : ℕ} (hbatch : 0 < batch) :
    (∀ s : Unix.AsyncLoop ι, Reachable Unix.AsyncLoop.Init (Unix.AsyncLoop.Step fd) s →
      (∀ h, (s.handle h).status = .opened → (s.handle h).pending = true → s.Outstanding h) ∧
      (∀ e, s.Enabled e → ∃ t, Unix.AsyncLoop.Step fd s e t) ∧
      ∀ x : Execution (Unix.AsyncLoop.Step fd), x.state 0 = s →
        x.Fair (Unix.AsyncLoop.Enabled · .loop) .loop →
        (∀ c, x.Fair (Unix.AsyncLoop.Enabled · (.send c)) (.send c)) →
        ∀ m, ∀ c ∈ (x.state m).returned, ((x.state m).handle c.1).asyncCb = true →
          ∃ m', m ≤ m' ∧ Unix.AsyncLoop.Served c.1 c.2.1 (x.state m')) ∧
    ∀ s : Win.AsyncLoop ι, Reachable Win.AsyncLoop.Init (Win.AsyncLoop.Step batch) s →
      (∀ h, (s.handle h).known = true → (s.handle h).asyncSent = true →
        (∃ c ∈ s.calls, c.handle = h ∧ c.stage = .post) ∨ some h ∈ s.port ∨ s.Dequeued h) ∧
      (∀ h, (s.handle h).known = true → (s.handle h).closed = true → s.packets h = 0) ∧
      (∀ e, s.Enabled e → ∃ t, Win.AsyncLoop.Step batch s e t) ∧
      ∀ x : Execution (Win.AsyncLoop.Step batch), x.state 0 = s → x.Fair (fun _ => True) .poll →
        (∀ c, x.Fair (Win.AsyncLoop.Enabled · (.send c)) (.send c)) →
        ∀ m, ∀ c ∈ (x.state m).returned, ((x.state m).handle c.1).asyncCb = true →
          ∃ m', m ≤ m' ∧ Win.AsyncLoop.Served c.1 c.2.1 (x.state m') := by
  constructor
  · intro s h
    have hs := Unix.AsyncLoop.Settled.of_reachable h
    refine ⟨hs.outstanding, fun e henabled => ?_, ?_⟩
    · obtain ⟨t, ht, -⟩ := hs.step henabled
      exact ⟨t, ht⟩
    · rintro x rfl hloop hsend m c hc hcb
      exact Unix.AsyncLoop.returned_leadsTo h hloop hsend m hc hcb
  · intro s h
    have hs := Win.AsyncLoop.Settled.of_reachable h
    refine ⟨fun k => hs.outstanding, fun k hknown hclosed => ?_, fun e henabled => ?_, ?_⟩
    · obtain ⟨-, hsent⟩ := hs.closed k hknown hclosed
      rw [hs.packets, if_neg (by simp [hsent])]
    · obtain ⟨t, ht, -⟩ := hs.step batch henabled
      exact ⟨t, ht⟩
    · rintro x rfl hpoll hsend m c hc hcb
      exact Win.AsyncLoop.returned_leadsTo hbatch h hpoll hsend m hc hcb

/-! ### Concrete runs -/

def emptyUnix : Unix.AsyncLoop ℕ :=
  ⟨fun _ => ⟨.fresh, false, false, 0⟩, [], [], .poll, 0, [], []⟩

theorem init_emptyUnix : Unix.AsyncLoop.Init emptyUnix :=
  ⟨fun _ => rfl, rfl, rfl, rfl, rfl, rfl⟩

def emptyWin : Win.AsyncLoop ℕ :=
  ⟨fun _ => ⟨false, false, false, false, false, false, 0⟩, [], [], [], [], .head, [], []⟩

theorem init_emptyWin : Win.AsyncLoop.Init emptyWin :=
  ⟨fun _ => rfl, rfl, rfl, rfl, rfl, rfl, rfl, rfl⟩

def fiveBytes : Unix.WakeUpFd := ⟨false, 5, by decide⟩

def answeredCall : List (Unix.AsyncLoop.Event ℕ) :=
  [.init 1 true, .begin 1, .send ⟨1, .read, 0⟩, .send ⟨1, .cmpxchg, 0⟩, .send ⟨1, .write, 0⟩,
    .loop, .loop, .loop, .send ⟨1, .done, 0⟩, .loop, .loop]

theorem answeredCall_isSome :
    (answeredCall.foldlM (Unix.AsyncLoop.step fiveBytes) emptyUnix).isSome = true := by
  rfl

def answered : Unix.AsyncLoop ℕ :=
  (answeredCall.foldlM (Unix.AsyncLoop.step fiveBytes) emptyUnix).get answeredCall_isSome

theorem reachable_answered :
    Reachable Unix.AsyncLoop.Init (Unix.AsyncLoop.Step fiveBytes) answered :=
  .of_foldlM (.init init_emptyUnix) (Option.some_get answeredCall_isSome).symm

theorem step_answered : Unix.AsyncLoop.Step fiveBytes answered .idle answered := rfl

theorem stay_answered_fair :
    (Execution.stay step_answered).Fair (Unix.AsyncLoop.Enabled · .loop) .loop ∧
      ∀ c, (Execution.stay step_answered).Fair (Unix.AsyncLoop.Enabled · (.send c)) (.send c) := by
  constructor
  · exact Execution.stay_fair _ (by decide)
  · intro c
    exact Execution.stay_fair _ (List.not_mem_nil (a := c))

/-- A call on unix is answered, and on Windows a handle whose packet is on the way when it closes
is closed after the packet. -/
theorem sends_answered_two :
    (∃ m, Unix.AsyncLoop.Served 1 0 ((Execution.stay step_answered).state m)) ∧
    ∃ s : Win.AsyncLoop ℕ, (s.handle 2).closed = true ∧ s.packets 2 = 0 := by
  have hbatch : 0 < 1 := by decide
  have hboth := sends_answered (ι := ℕ) fiveBytes hbatch
  constructor
  · obtain ⟨m, -, hserved⟩ := (hboth.1 answered reachable_answered).2.2
      (Execution.stay step_answered) rfl stay_answered_fair.1 stay_answered_fair.2 0 (1, 0, 1)
      (by decide) rfl
    exact ⟨m, hserved⟩
  · have hsome : ([Win.AsyncLoop.Event.init 2 true, .begin 2, .send ⟨2, .exchange, 0⟩, .close 2,
        .send ⟨2, .post, 0⟩, .loop, .loop, .poll, .loop, .loop, .loop, .loop, .poll,
        .loop].foldlM (Win.AsyncLoop.step 1) emptyWin).isSome = true := by rfl
    have hwin := hboth.2 _ (.of_foldlM (.init init_emptyWin) (Option.some_get hsome).symm)
    exact ⟨_, by rfl, hwin.2.1 2 (by rfl) (by rfl)⟩

/-- The callback can start before the call returns, and never again. -/
theorem no_later_start : ∃ x : Execution (Unix.AsyncLoop.Step (ι := ℕ) fiveBytes),
    Reachable Unix.AsyncLoop.Init (Unix.AsyncLoop.Step fiveBytes) (x.state 0) ∧
    x.Fair (Unix.AsyncLoop.Enabled · .loop) .loop ∧
    (∀ c, x.Fair (Unix.AsyncLoop.Enabled · (.send c)) (.send c)) ∧
    ∃ c ∈ (x.state 0).returned, ((x.state 0).handle c.1).asyncCb = true ∧
      ∀ m, ¬ Unix.AsyncLoop.Served c.1 c.2.2 (x.state m) := by
  refine ⟨Execution.stay step_answered, reachable_answered, stay_answered_fair.1,
    stay_answered_fair.2, (1, 0, 1), by decide, rfl, fun m hserved => ?_⟩
  rcases hserved with hclosed | hlt
  · cases hclosed
  · have hlt : 0 + 1 < (answered.handle 1).starts := hlt
    exact absurd hlt (by decide)

end LibuvWorks
