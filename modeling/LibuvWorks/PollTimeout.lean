import LibuvWorks.Unix.RunSpec
import LibuvWorks.Win.RunSpec

/-!
# The timeout of the poll and the work that waits

`WorkReady` says that a callback can run without any event from outside. The poll
timeout is 0 then, with one exception on both backends: a handle that waits only for
its close callback does not make it 0.
-/
namespace LibuvWorks

open Transition List

variable {ι γ : Type*} [DecidableEq ι]

theorem tested_iff {stop dead idle pending empty ran due : Prop} (halive : ¬ empty → ¬ dead)
    (hran : ¬ ran) : (stop ∨ dead ∨ idle ∨ pending ∨ ¬ empty → stop ∨ dead ∨ idle ∨ pending ∨ due) ↔
      empty ∨ stop ∨ idle ∨ pending ∨ ran ∨ due := by
  by_cases hdead : dead
  · have hempty : empty := by
      by_contra h
      exact halive h hdead
    simp [hdead, hempty]
  · by_cases hempty : empty
    · tauto
    · simp only [hdead, hempty, hran, not_false_eq_true, or_true, false_or, forall_const]

theorem exists_mem_iff {α : Type*} {xs : List α} : (∃ x, x ∈ xs) ↔ xs ≠ [] :=
  ⟨fun ⟨_, hx⟩ => ne_nil_of_mem hx, exists_mem_of_ne_nil xs⟩

namespace Unix

def WorkReady (l : UvLoop ι γ) : Prop :=
  l.stopFlag = true ∨ uvLoopAlive l = false ∨ (∃ w, (l.flags (.watcher .idle w)).active = true) ∨
    l.pendingQueue ≠ [] ∨ l.closingHandles ≠ []

/-- No handle waits for its close callback, or the timeout is 0 for another reason. -/
def ClosingSeen (s : RunState ι γ) : Prop :=
  s.loop.closingHandles = [] ∨ s.loop.stopFlag = true ∨
    (∃ w, (s.loop.flags (.watcher .idle w)).active = true) ∨ s.loop.pendingQueue ≠ [] ∨
    (s.mode = .once ∧ s.ranPending = true) ∨
    ∃ t, heapMin s.loop.timerHeap = some t ∧ (s.loop.timer t).timeout ≤ s.loop.time

omit [DecidableEq ι] in
theorem uvNextTimeout_eq_zero {l : UvLoop ι γ} : uvNextTimeout l = 0 ↔
    ∃ t, heapMin l.timerHeap = some t ∧ (l.timer t).timeout ≤ l.time := by
  unfold uvNextTimeout
  cases hm : heapMin l.timerHeap with
  | none => simp
  | some t =>
    simp only [Option.some.injEq, exists_eq_left']
    by_cases hdue : (l.timer t).timeout ≤ l.time
    · simp [hdue]
    · have hlt : l.time.toNat < (l.timer t).timeout.toNat := by
        rwa [UInt64.le_iff_toNat_le, Nat.not_le] at hdue
      have hsub := UInt64.toNat_sub_of_le (l.timer t).timeout l.time
        (UInt64.le_iff_toNat_le.mpr (by omega))
      have hmax : intMax = 2147483647 := rfl
      simp only [hdue, if_false, iff_false]
      split_ifs <;> omega

omit [DecidableEq ι] in
theorem uvBackendTimeout_eq_zero {l : UvLoop ι γ} : uvBackendTimeout l = 0 ↔
    l.stopFlag = true ∨ uvLoopAlive l = false ∨ l.watcherHandles .idle ≠ [] ∨
      l.pendingQueue ≠ [] ∨ uvNextTimeout l = 0 := by
  unfold uvBackendTimeout
  split_ifs <;> simp_all

/-- The timeout handed to the poll is 0 whenever work is ready just when no handle is
overlooked that waits for its close callback. -/
theorem RunReachable.poll_iff {s : RunState ι γ} (h : RunReachable s) (hpoll : s.phase = .poll)
    (hmode : s.mode ≠ .nowait) : (WorkReady s.loop → s.timeout = 0) ↔ ClosingSeen s := by
  have H := h.runOk
  have hrun : s.loop.watcherRun .idle = [] := H.run .idle (by simp [hpoll])
  have hidle : (∃ w, (s.loop.flags (.watcher .idle w)).active = true) ↔
      s.loop.watcherHandles .idle ≠ [] := by
    rw [← exists_mem_iff]
    apply exists_congr
    intro w
    rw [(H.watchers .idle).2, linked, hrun, append_nil]
  rw [WorkReady, ClosingSeen, hidle, h.timeout hpoll, ← uvNextTimeout_eq_zero]
  split_ifs with hask
  · have hnot : ¬ (s.mode = .once ∧ s.ranPending = true) := by
      rcases hask with ⟨_, hran⟩ | hdef
      · simp [hran]
      · simp [hdef]
    have halive : ¬ s.loop.closingHandles = [] → ¬ uvLoopAlive s.loop = false := by
      intro hne
      simp [uvLoopAlive, hne]
    rw [uvBackendTimeout_eq_zero]
    exact tested_iff halive hnot
  · have honce : s.mode = .once ∧ s.ranPending = true := by
      cases hm : s.mode <;> simp_all
    simp [honce]

end Unix

namespace Win

def WorkReady (l : UvLoop ι γ) : Prop :=
  l.stopFlag = true ∨ uvLoopAlive l = false ∨ (∃ w, (l.flags (.watcher .idle w)).active = true) ∨
    l.pendingReqs ≠ [] ∨ l.endgameHandles ≠ []

/-- No handle waits for its endgame, or the timeout is 0 for another reason. -/
def ClosingSeen (s : RunState ι γ) : Prop :=
  s.loop.endgameHandles = [] ∨ s.loop.stopFlag = true ∨
    (∃ w, (s.loop.flags (.watcher .idle w)).active = true) ∨ s.loop.pendingReqs ≠ [] ∨
    (s.mode = .once ∧ s.ranPending = true) ∨
    ∃ t, rbMin s.loop.timers = some t ∧ toInt64 ((s.loop.timer t).due - s.loop.time) ≤ 0

omit [DecidableEq ι] in
theorem uvNextTimeout_eq_zero {l : UvLoop ι γ} : uvNextTimeout l = 0 ↔
    ∃ t, rbMin l.timers = some t ∧ toInt64 ((l.timer t).due - l.time) ≤ 0 := by
  unfold uvNextTimeout
  cases hm : rbMin l.timers with
  | none => simp [infinite]
  | some t =>
    have hmax : uintMax - 1 = 4294967294 := rfl
    simp only [Option.some.injEq, exists_eq_left', hmax]
    generalize toInt64 ((l.timer t).due - l.time) = delta
    split_ifs
    · exact ⟨False.elim, fun h => by omega⟩
    · omega
    · omega

omit [DecidableEq ι] in
theorem uvBackendTimeout_eq_zero {l : UvLoop ι γ} : uvBackendTimeout l = 0 ↔
    l.stopFlag = true ∨ uvLoopAlive l = false ∨ l.pendingReqs ≠ [] ∨
      l.watcherHandles .idle ≠ [] ∨ uvNextTimeout l = 0 := by
  unfold uvBackendTimeout
  split_ifs <;> simp_all

theorem RunReachable.poll_iff {s : RunState ι γ} (h : RunReachable s) (hpoll : s.phase = .poll)
    (hmode : s.mode ≠ .nowait) : (WorkReady s.loop → s.timeout = 0) ↔ ClosingSeen s := by
  have H := h.runOk
  have hidle : (∃ w, (s.loop.flags (.watcher .idle w)).active = true) ↔
      s.loop.watcherHandles .idle ≠ [] := by
    rw [← exists_mem_iff]
    exact exists_congr fun w => (H.watchers .idle).2 w
  rw [WorkReady, ClosingSeen, hidle, H.poll hpoll, ← uvNextTimeout_eq_zero]
  split_ifs with hask
  · have hnot : ¬ (s.mode = .once ∧ s.ranPending = true) := by
      rcases hask with ⟨_, hran⟩ | hdef
      · simp [hran]
      · simp [hdef]
    have halive : ¬ s.loop.endgameHandles = [] → ¬ uvLoopAlive s.loop = false := by
      intro hne
      simp [uvLoopAlive, hne]
    rw [uvBackendTimeout_eq_zero, or_left_comm (a := s.loop.pendingReqs ≠ [])]
    exact tested_iff halive hnot
  · have honce : s.mode = .once ∧ s.ranPending = true := by
      cases hm : s.mode <;> simp_all
    simp [honce]

end Win

/-! ## Both backends -/

/-- In every reachable state before the poll of a `UV_RUN_DEFAULT` or `UV_RUN_ONCE`
iteration, on both backends: the timeout is 0 whenever work is ready just when no
handle that waits for its close callback is overlooked. -/
theorem uvRun_poll_timeout_iff :
    (∀ s : Unix.RunState ι γ, Unix.RunReachable s → s.phase = .poll → s.mode ≠ .nowait →
      ((Unix.WorkReady s.loop → s.timeout = 0) ↔ Unix.ClosingSeen s)) ∧
    ∀ s : Win.RunState ι γ, Win.RunReachable s → s.phase = .poll → s.mode ≠ .nowait →
      ((Win.WorkReady s.loop → s.timeout = 0) ↔ Win.ClosingSeen s) :=
  ⟨fun _ h hpoll hmode => h.poll_iff hpoll hmode, fun _ h hpoll hmode => h.poll_iff hpoll hmode⟩

namespace Unix

def idleThread : RunState ℕ Unit := ⟨idleLoop 0, .user, .default, false, false, 0, []⟩

theorem idleThread_init : RunInit idleThread where
  phase := rfl
  stopFlag := rfl
  counts := ⟨rfl, rfl⟩
  closingHandles := rfl
  watchers _ := ⟨rfl, rfl⟩
  pending := ⟨rfl, rfl⟩
  timers := ⟨⟨_, rfl⟩, rfl⟩
  flags _ := rfl
  timer _ := ⟨rfl, rfl⟩

/-- No callback runs, the clock stands still, and the program goes on to `uv_run`. -/
def quiet : Input ℕ Unit := ⟨[], [], 0, .default, false⟩

/-- A stream and a prepare handle are started, and the loop is run up to its poll; the
prepare callback performs `ops`. -/
def prepareRun (ops : List (LoopOp ℕ Unit)) : List (Input ℕ Unit) :=
  [{ quiet with ops := [.streamStart 1, .watcherStart .prepare 0 (some ())], more := true },
    quiet, quiet, quiet, quiet, { quiet with ops := ops }, quiet]

theorem RunReachable.of_run {inputs : List (Input ℕ Unit)} {s : RunState ℕ Unit}
    (hrun : runInputs runStep idleThread inputs = .ok s) : RunReachable s :=
  .of_runInputs (.init idleThread_init) hrun

end Unix

namespace Win

/-- A thread with an idle loop. -/
def idleThread : RunState ℕ Unit where
  loop := { time := 0, stopFlag := false, activeHandles := 0, activeReqs := 0, endgameHandles := [],
            pendingReqs := [], watcherHandles := fun _ => [], nextWatcher := fun _ => none,
            timers := [], timerCounter := 0, flags := fun _ => ⟨false, true, false, false, false⟩,
            timer := fun _ => ⟨none, 0, 0, 0⟩, watcherCb := fun _ _ => none,
            closeCb := fun _ => none, reqsPending := fun _ => 0 }
  phase := .user
  mode := .default
  r := false
  ranPending := false
  timeout := 0
  reqsRun := []

theorem idleThread_init : RunInit idleThread where
  phase := rfl
  stopFlag := rfl
  counts := ⟨rfl, rfl⟩
  endgameHandles := rfl
  watchers _ := ⟨rfl, rfl⟩
  pending := rfl
  timers := ⟨rfl, rfl⟩
  flags _ := rfl
  timer _ := ⟨rfl, rfl⟩
  reqsPending _ := rfl

def quiet : Input ℕ Unit := ⟨[], 0, [], .default, false⟩

/-- The run of `Unix.prepareRun` on Windows. -/
def prepareRun (ops : List (LoopOp ℕ Unit)) : List (Input ℕ Unit) :=
  [{ quiet with ops := [.streamStart 1, .watcherStart .prepare 0 (some ())], more := true },
    quiet, quiet, quiet, quiet, { quiet with ops := ops }, quiet]

theorem RunReachable.of_run {inputs : List (Input ℕ Unit)} {s : RunState ℕ Unit}
    (hrun : runInputs runStep idleThread inputs = .ok s) : RunReachable s :=
  .of_runInputs (.init idleThread_init) hrun

end Win

theorem uvRun_poll_timeout_iff_idle :
    ∃ (s : Unix.RunState ℕ Unit) (s' : Win.RunState ℕ Unit),
      s.phase = .poll ∧ s'.phase = .poll ∧
      ((Unix.WorkReady s.loop → s.timeout = 0) ↔ Unix.ClosingSeen s) ∧
      ((Win.WorkReady s'.loop → s'.timeout = 0) ↔ Win.ClosingSeen s') := by
  obtain ⟨s, hrun, hpoll, hmode⟩ : ∃ s, runInputs Unix.runStep Unix.idleThread
      (Unix.prepareRun [.stop]) = .ok s ∧ s.phase = .poll ∧ s.mode = .default :=
    ⟨_, rfl, rfl, rfl⟩
  obtain ⟨s', hrun', hpoll', hmode'⟩ : ∃ s, runInputs Win.runStep Win.idleThread
      (Win.prepareRun [.stop]) = .ok s ∧ s.phase = .poll ∧ s.mode = .default :=
    ⟨_, rfl, rfl, rfl⟩
  have h := uvRun_poll_timeout_iff (ι := ℕ) (γ := Unit)
  exact ⟨s, s', hpoll, hpoll', h.1 s (.of_run hrun) hpoll (by simp [hmode]),
    h.2 s' (.of_run hrun') hpoll' (by simp [hmode'])⟩

/-- A prepare callback that closes its handle: its close callback can run, but the poll
is given no timeout. -/
theorem uvRun_blocks_on_closing :
    (∃ s : Unix.RunState ℕ Unit, Unix.RunReachable s ∧ s.phase = .poll ∧ s.mode = .default ∧
      s.loop.closingHandles = [.watcher .prepare 0] ∧ s.timeout = -1 ∧
      ¬ (Unix.WorkReady s.loop → s.timeout = 0)) ∧
    ∃ s : Win.RunState ℕ Unit, Win.RunReachable s ∧ s.phase = .poll ∧ s.mode = .default ∧
      s.loop.endgameHandles = [.watcher .prepare 0] ∧ s.timeout = Win.infinite ∧
      ¬ (Win.WorkReady s.loop → s.timeout = 0) := by
  constructor
  · obtain ⟨s, hrun, hpoll, hmode, hclosing, htimeout⟩ : ∃ s, runInputs Unix.runStep
        Unix.idleThread (Unix.prepareRun [.close (.watcher .prepare 0) none]) = .ok s ∧
        s.phase = .poll ∧ s.mode = .default ∧ s.loop.closingHandles = [.watcher .prepare 0] ∧
        s.timeout = -1 := ⟨_, rfl, rfl, rfl, rfl, rfl⟩
    refine ⟨s, .of_run hrun, hpoll, hmode, hclosing, htimeout, fun h => ?_⟩
    have h0 := h (.inr (.inr (.inr (.inr (by simp [hclosing])))))
    rw [htimeout] at h0
    cases h0
  · obtain ⟨s, hrun, hpoll, hmode, hclosing, htimeout⟩ : ∃ s, runInputs Win.runStep
        Win.idleThread (Win.prepareRun [.close (.watcher .prepare 0) none]) = .ok s ∧
        s.phase = .poll ∧ s.mode = .default ∧ s.loop.endgameHandles = [.watcher .prepare 0] ∧
        s.timeout = Win.infinite := ⟨_, rfl, rfl, rfl, rfl, rfl⟩
    refine ⟨s, .of_run hrun, hpoll, hmode, hclosing, htimeout, fun h => ?_⟩
    have h0 := h (.inr (.inr (.inr (.inr (by simp [hclosing])))))
    rw [htimeout] at h0
    cases h0

end LibuvWorks
