import LibuvWorks.Lib.Threads

/-!
# `uv_once`: `win/thread.c`

The threads take turns at every access to the guard and at every call of the system. Events are
numbered as they are created.
-/
open Function Nat

namespace LibuvWorks.Win

open Function (update)

/-- Where a thread is in `uv_once` and `uv__once_inner`. -/
inductive OncePc where
  | idle : OncePc
  /-- `if (guard->ran)` -/
  | check : OncePc
  /-- `created_event = CreateEvent(NULL, 1, 0, NULL)` -/
  | create : OncePc
  /-- `InterlockedCompareExchangePointer(&guard->event, created_event, NULL)` -/
  | exchange : OncePc
  /-- The thread has won the race. -/
  | callback : OncePc
  | inCallback : OncePc
  /-- `SetEvent(created_event)` -/
  | setEvent : OncePc
  /-- `guard->ran = 1` -/
  | setRan : OncePc
  /-- `CloseHandle(created_event)` -/
  | closeHandle : OncePc
  /-- `WaitForSingleObject(existing_event, INFINITE)` -/
  | wait : OncePc
  deriving DecidableEq

/-- A thread: where it is, its events, and how many of its calls have returned. -/
structure OnceThread where
  pc : OncePc
  createdEvent : ℕ
  existingEvent : ℕ
  returns : ℕ

/-- `uv_once_t`, the events, how often the callback was called and how often it returned, and the
threads. -/
structure Once (τ : Type*) where
  ran : Bool
  event : Option ℕ
  created : ℕ
  signaled : ℕ → Bool
  closed : ℕ → Bool
  started : ℕ
  finished : ℕ
  thread : τ → OnceThread

namespace Once

/-- `UV_ONCE_INIT`, before any call -/
def uvOnceInit (τ : Type*) : Once τ :=
  ⟨false, none, 0, fun _ => false, fun _ => false, 0, 0, fun _ => ⟨.idle, 0, 0, 0⟩⟩

variable {τ : Type*} [DecidableEq τ] (s : Once τ) (i : τ)

def goto (pc : OncePc) : Once τ :=
  { s with thread := update s.thread i { s.thread i with pc } }

/-- `uv_once` returns. -/
def finish : Once τ :=
  let x := s.thread i
  { s with thread := update s.thread i { x with pc := .idle, returns := x.returns + 1 } }

/-- `CreateEvent` makes an event that is reset by hand only and not set. Where it fails, the process
is aborted. -/
def createEvent : Once τ :=
  { s with
    created := s.created + 1
    thread := update s.thread i { s.thread i with pc := .exchange, createdEvent := s.created } }

def exchange : Once τ :=
  match s.event with
  | none => { s.goto i .callback with event := some (s.thread i).createdEvent }
  | some existingEvent =>
    { s with thread := update s.thread i { s.thread i with pc := .closeHandle, existingEvent } }

/-- A turn of a thread; `none` where it waits. -/
def turn : Option (Once τ) :=
  let x := s.thread i
  match x.pc with
  | .idle => none
  | .check => some (if s.ran then s.finish i else s.goto i .create)
  | .create => some (s.createEvent i)
  | .exchange => some (s.exchange i)
  | .callback => some { s.goto i .inCallback with started := s.started + 1 }
  | .inCallback => some { s.goto i .setEvent with finished := s.finished + 1 }
  | .setEvent => some { s.goto i .setRan with signaled := update s.signaled x.createdEvent true }
  | .setRan => some { s.finish i with ran := true }
  | .closeHandle => some { s.goto i .wait with closed := update s.closed x.createdEvent true }
  | .wait => if s.signaled x.existingEvent then some (s.finish i) else none

inductive Event (τ : Type*) where
  | call (i : τ) : Event τ
  | turn (i : τ) : Event τ

def step : Event τ → Option (Once τ)
  | .call i => if (s.thread i).pc = .idle then some (s.goto i .check) else none
  | .turn i => s.turn i

def Step (s : Once τ) (e : Event τ) (t : Once τ) : Prop := s.step e = some t

end Once

end LibuvWorks.Win

/-!
## One execution of the callback

The thread whose event becomes the one of the guard calls the callback, sets the event and then
`ran`. All others close their events, and return no earlier than one of the two is set.
-/
namespace LibuvWorks.Win

open Function (update)
open Threads Transition

inductive OnceStage (τ : Type*) where
  | fresh : OnceStage τ
  | won (i : τ) : OnceStage τ
  | running (i : τ) : OnceStage τ
  | finished : OnceStage τ

namespace OnceStage

variable {τ : Type*}

def started : OnceStage τ → ℕ
  | .fresh | .won _ => 0
  | .running _ | .finished => 1

def ended : OnceStage τ → ℕ
  | .fresh | .won _ | .running _ => 0
  | .finished => 1

theorem started_le_one (stage : OnceStage τ) : stage.started ≤ 1 := by
  cases stage <;> simp [started]

theorem ended_le_started (stage : OnceStage τ) : stage.ended ≤ stage.started := by
  cases stage <;> simp [started, ended]

end OnceStage

namespace OncePc

def holds : OncePc → Bool
  | .exchange | .closeHandle => true
  | _ => false

def wins : OncePc → Bool
  | .callback | .inCallback | .setEvent => true
  | _ => false

def loses : OncePc → Bool
  | .closeHandle | .wait => true
  | _ => false

def late : OncePc → Bool
  | .setEvent | .setRan => true
  | _ => false

end OncePc

namespace OnceThread

def Holds (x : OnceThread) : Prop := x.pc.holds = true

def Wins (x : OnceThread) : Prop := x.pc.wins = true

def Loses (x : OnceThread) : Prop := x.pc.loses = true

def Late (x : OnceThread) : Prop := x.pc.late = true ∨ 0 < x.returns

end OnceThread

namespace Once

variable {τ : Type*} [DecidableEq τ] {s t : Once τ} {i j : τ} {e : Event τ}
    {stage stage' : OnceStage τ}

structure Staged (stage : OnceStage τ) (s : Once τ) : Prop where
  started : s.started = stage.started
  ended : s.finished = stage.ended
  event : s.event = none ↔ stage = .fresh
  callback : ∀ i, (s.thread i).pc = .callback ↔ stage = .won i
  inCallback : ∀ i, (s.thread i).pc = .inCallback ↔ stage = .running i
  late : ∀ i, (s.thread i).Late → stage = .finished
  ran : s.ran = true → stage = .finished
  signaled : ∀ k, s.signaled k = true → stage = .finished

namespace Staged

section

variable (h : Staged stage s)
include h

theorem put {x : OnceThread} (ht : t.thread = update s.thread i x)
    (hothers : ∀ j, j ≠ i → ((stage' = .won j ↔ stage = .won j) ∧
      (stage' = .running j ↔ stage = .running j)))
    (hfinished : stage = .finished → stage' = .finished)
    (hstarted : t.started = stage'.started) (hended : t.finished = stage'.ended)
    (hevent : t.event = none ↔ stage' = .fresh) (hcallback : x.pc = .callback ↔ stage' = .won i)
    (hin : x.pc = .inCallback ↔ stage' = .running i) (hlate : x.Late → stage' = .finished)
    (hran : t.ran = true → stage' = .finished)
    (hsignaled : ∀ k, t.signaled k = true → stage' = .finished) : Staged stage' t := by
  constructor
  · exact hstarted
  · exact hended
  · exact hevent
  · rw [ht]
    apply forall_update_of_ne (P := fun j (x : OnceThread) => x.pc = .callback ↔ stage' = .won j) _
      hcallback
    intro j hj
    rw [(hothers j hj).1]
    exact h.callback j
  · rw [ht]
    apply forall_update_of_ne
      (P := fun j (x : OnceThread) => x.pc = .inCallback ↔ stage' = .running j) _ hin
    intro j hj
    rw [(hothers j hj).2]
    exact h.inCallback j
  · rw [ht]
    exact forall_update (P := fun _ (x : OnceThread) => x.Late → stage' = .finished)
      (fun j hj => hfinished (h.late j hj)) hlate
  · exact hran
  · exact hsignaled

theorem goOn {x y : OnceThread} (hi : s.thread i = y)
    (ht : t.thread = update s.thread i x) (hstarted : t.started = s.started)
    (hended : t.finished = s.finished) (hevent : t.event = s.event)
    (hcallback : x.pc = .callback ↔ y.pc = .callback)
    (hin : x.pc = .inCallback ↔ y.pc = .inCallback)
    (hlate : x.Late → stage = .finished) (hran : t.ran = true → stage = .finished)
    (hsignaled : ∀ k, t.signaled k = true → stage = .finished) : Staged stage t := by
  subst hi
  apply h.put ht
  · exact fun _ _ => ⟨Iff.rfl, Iff.rfl⟩
  · exact id
  · exact hstarted.trans h.started
  · exact hended.trans h.ended
  · rw [hevent]
    exact h.event
  · exact hcallback.trans (h.callback i)
  · exact hin.trans (h.inCallback i)
  · exact hlate
  · exact hran
  · exact hsignaled

variable {y : OnceThread}

theorem win (hi : s.thread i = y)
    (hpc : y.pc = .exchange) (hevent : s.event = none) :
    Staged (.won i) { s.goto i .callback with event := some y.createdEvent } := by
  have hfresh := h.event.mp hevent
  subst hfresh
  have hlate : ¬y.Late := by
    intro habs
    have hstage := h.late i (hi ▸ habs)
    cases hstage
  apply h.put (x := { y with pc := .callback })
  · rw [← hi]
    rfl
  · exact fun j hj => ⟨iff_of_false (fun habs => hj (OnceStage.won.inj habs).symm) nofun,
      iff_of_false nofun nofun⟩
  · exact nofun
  · exact h.started
  · exact h.ended
  · exact iff_of_false nofun nofun
  · exact iff_of_true rfl rfl
  · exact iff_of_false nofun nofun
  · rintro (habs | habs)
    · cases habs
    · exact absurd (.inr habs) hlate
  · exact fun hran => nomatch h.ran hran
  · exact fun k hk => nomatch h.signaled k hk

theorem start (hi : s.thread i = y)
    (hpc : y.pc = .callback) :
    Staged (.running i) { s.goto i .inCallback with started := s.started + 1 } := by
  have hwon := (h.callback i).mp (by rw [hi]; exact hpc)
  subst hwon
  have hlate : ¬y.Late := by
    intro habs
    have hstage := h.late i (hi ▸ habs)
    cases hstage
  apply h.put (x := { y with pc := .inCallback })
  · rw [← hi]
    rfl
  · exact fun j hj => ⟨iff_of_false nofun fun habs => hj (OnceStage.won.inj habs).symm,
      iff_of_false (fun habs => hj (OnceStage.running.inj habs).symm) nofun⟩
  · exact nofun
  · exact congrArg (· + 1) h.started
  · exact h.ended
  · exact iff_of_false (fun habs => nomatch h.event.mp habs) nofun
  · exact iff_of_false nofun nofun
  · exact iff_of_true rfl rfl
  · rintro (habs | habs)
    · cases habs
    · exact absurd (.inr habs) hlate
  · exact fun hran => nomatch h.ran hran
  · exact fun k hk => nomatch h.signaled k hk

theorem finish (hi : s.thread i = y)
    (hpc : y.pc = .inCallback) :
    Staged .finished { s.goto i .setEvent with finished := s.finished + 1 } := by
  have hrunning := (h.inCallback i).mp (by rw [hi]; exact hpc)
  subst hrunning
  apply h.put (x := { y with pc := .setEvent })
  · rw [← hi]
    rfl
  · exact fun j hj => ⟨iff_of_false nofun nofun,
      iff_of_false nofun fun habs => hj (OnceStage.running.inj habs).symm⟩
  · exact fun _ => rfl
  · exact h.started
  · exact congrArg (· + 1) h.ended
  · exact iff_of_false (fun habs => nomatch h.event.mp habs) nofun
  · exact iff_of_false nofun nofun
  · exact iff_of_false nofun nofun
  · exact fun _ => rfl
  · exact fun _ => rfl
  · exact fun _ _ => rfl

/-- A turn that is neither one of the winner before it has set its event, nor ends a call. -/
theorem move (hi : s.thread i = y) {pc : OncePc}
    {createdEvent existingEvent created : ℕ} {closed : ℕ → Bool}
    (hcallback : pc = .callback ↔ y.pc = .callback) (hin : pc = .inCallback ↔ y.pc = .inCallback)
    (hlate : pc.late = true → y.pc.late = true) :
    Staged stage ⟨s.ran, s.event, created, s.signaled, closed, s.started, s.finished,
      update s.thread i ⟨pc, createdEvent, existingEvent, y.returns⟩⟩ := by
  apply h.goOn hi rfl
  · rfl
  · rfl
  · rfl
  · exact hcallback
  · exact hin
  · intro hx
    apply h.late i
    rw [hi]
    exact hx.imp_left hlate
  · exact h.ran
  · exact h.signaled

end

theorem returns (h : Staged .finished s) {y : OnceThread} (hi : s.thread i = y) {ran : Bool}
    (hcallback : y.pc ≠ .callback) (hin : y.pc ≠ .inCallback) :
    Staged .finished { s.finish i with ran } := by
  apply h.goOn (x := { y with pc := .idle, returns := y.returns + 1 }) hi
  · rw [← hi]
    rfl
  · rfl
  · rfl
  · rfl
  · exact iff_of_false nofun hcallback
  · exact iff_of_false nofun hin
  · exact fun _ => rfl
  · exact fun _ => rfl
  · exact fun _ _ => rfl

end Staged

/-! ### The events -/

structure Owned (s : Once τ) : Prop where
  guard : ∀ k, s.event = some k → k < s.created ∧ s.closed k = false
  closed : ∀ k, s.closed k = true → k < s.created
  holds : ∀ i, (s.thread i).Holds → (s.thread i).createdEvent < s.created ∧
    s.closed (s.thread i).createdEvent = false ∧ s.event ≠ some (s.thread i).createdEvent
  distinct : ∀ i j, (s.thread i).Holds → (s.thread j).Holds →
    (s.thread i).createdEvent = (s.thread j).createdEvent → i = j
  events : ∀ k, k < s.created → s.event = some k ∨ s.closed k = true ∨
    ∃ i, (s.thread i).Holds ∧ (s.thread i).createdEvent = k
  wins : ∀ i, (s.thread i).Wins → s.event = some (s.thread i).createdEvent
  loses : ∀ i, (s.thread i).Loses → s.event = some (s.thread i).existingEvent
  wakes : s.finished = 1 → (∃ k, s.event = some k ∧ s.signaled k = true) ∨
    ∃ i, (s.thread i).pc = .setEvent

namespace Owned

section

variable (h : Owned s)
include h

theorem put {x : OnceThread} (ht : t.thread = update s.thread i x)
    (hcreated : s.created ≤ t.created) (hevent : ∀ k, s.event = some k → t.event = some k)
    (hguard : ∀ k, t.event = some k → k < t.created ∧ t.closed k = false)
    (hclosed : ∀ k, t.closed k = true → k < t.created)
    (hothers : ∀ j, j ≠ i → (s.thread j).Holds → t.closed (s.thread j).createdEvent = false ∧
      t.event ≠ some (s.thread j).createdEvent ∧
      (x.Holds → (s.thread j).createdEvent ≠ x.createdEvent))
    (hx : x.Holds → x.createdEvent < t.created ∧ t.closed x.createdEvent = false ∧
      t.event ≠ some x.createdEvent)
    (hevents : ∀ k, k < t.created → t.event = some k ∨ t.closed k = true ∨
      ∃ j, (update s.thread i x j).Holds ∧ (update s.thread i x j).createdEvent = k)
    (hwins : x.Wins → t.event = some x.createdEvent)
    (hloses : x.Loses → t.event = some x.existingEvent)
    (hwakes : t.finished = 1 → (∃ k, t.event = some k ∧ t.signaled k = true) ∨
      ∃ j, (update s.thread i x j).pc = .setEvent) : Owned t := by
  constructor
  · exact hguard
  · exact hclosed
  · rw [ht]
    apply forall_update_of_ne (P := fun _ (x : OnceThread) => x.Holds → x.createdEvent < t.created ∧
      t.closed x.createdEvent = false ∧ t.event ≠ some x.createdEvent) _ hx
    intro j hj hholds
    obtain ⟨hopen, hne, -⟩ := hothers j hj hholds
    exact ⟨(h.holds j hholds).1.trans_le hcreated, hopen, hne⟩
  · rw [ht]
    apply forall_update_of_ne (P := fun i' (x' : OnceThread) => ∀ j, x'.Holds →
      (update s.thread i x j).Holds →
        x'.createdEvent = (update s.thread i x j).createdEvent → i' = j)
    · intro i' hi'
      apply forall_update_of_ne (P := fun j (x' : OnceThread) => (s.thread i').Holds →
        x'.Holds → (s.thread i').createdEvent = x'.createdEvent → i' = j)
      · exact fun j _ => h.distinct i' j
      · exact fun hholds hholds' heq => absurd heq ((hothers i' hi' hholds).2.2 hholds')
    · apply forall_update_of_ne (P := fun j (x' : OnceThread) => x.Holds → x'.Holds →
        x.createdEvent = x'.createdEvent → i = j)
      · exact fun j hj hholds hholds' heq => absurd heq.symm ((hothers j hj hholds').2.2 hholds)
      · exact fun _ _ _ => rfl
  · rw [ht]
    exact hevents
  · rw [ht]
    exact forall_update (P := fun _ (x : OnceThread) => x.Wins → t.event = some x.createdEvent)
      (fun j hj => hevent _ (h.wins j hj)) hwins
  · rw [ht]
    exact forall_update (P := fun _ (x : OnceThread) => x.Loses → t.event = some x.existingEvent)
      (fun j hj => hevent _ (h.loses j hj)) hloses
  · rw [ht]
    exact hwakes

variable {y : OnceThread}

/-- What another thread has is not what this one has. -/
theorem others (hi : s.thread i = y) (hy : y.Holds) (hj : j ≠ i)
    (hholds : (s.thread j).Holds) : s.closed (s.thread j).createdEvent = false ∧
      s.event ≠ some (s.thread j).createdEvent ∧ (s.thread j).createdEvent ≠ y.createdEvent := by
  subst hi
  obtain ⟨-, hopen, hne⟩ := h.holds j hholds
  exact ⟨hopen, hne, fun heq => hj (h.distinct j i hholds hy heq)⟩

theorem wakes_update {x y : OnceThread} (hi : s.thread i = y)
    (hpc : y.pc ≠ .setEvent) (hfinished : s.finished = 1) :
    (∃ k, s.event = some k ∧ s.signaled k = true) ∨
      ∃ j, (update s.thread i x j).pc = .setEvent := by
  rcases h.wakes hfinished with hset | ⟨j, hj⟩
  · exact .inl hset
  · have e : j ≠ i := by
      rintro rfl
      rw [hi] at hj
      exact hpc hj
    refine .inr ⟨j, ?_⟩
    rw [update_of_ne e]
    exact hj

theorem events_update {x y : OnceThread} (hi : s.thread i = y)
    (hcreated : x.createdEvent = y.createdEvent) (hholds : y.Holds → x.Holds) {k : ℕ}
    (hk : k < s.created) : s.event = some k ∨ s.closed k = true ∨
      ∃ j, (update s.thread i x j).Holds ∧ (update s.thread i x j).createdEvent = k := by
  rcases h.events k hk with hguard | hclosed | ⟨j, hj, heq⟩
  · exact .inl hguard
  · exact .inr (.inl hclosed)
  · refine .inr (.inr ⟨j, ?_⟩)
    by_cases e : j = i
    · subst e
      rw [hi] at hj heq
      rw [update_self, hcreated]
      exact ⟨hholds hj, heq⟩
    · rw [update_of_ne e]
      exact ⟨hj, heq⟩

theorem goOn {x y : OnceThread} (hi : s.thread i = y) {ran : Bool}
    {started finished : ℕ} {signaled : ℕ → Bool} (hcreated : x.createdEvent = y.createdEvent)
    (hexisting : x.existingEvent = y.existingEvent) (hholds : x.Holds ↔ y.Holds)
    (hwins : x.Wins → y.Wins) (hloses : x.Loses → y.Loses)
    (hwakes : finished = 1 → (∃ k, s.event = some k ∧ signaled k = true) ∨
      ∃ j, (update s.thread i x j).pc = .setEvent) :
    Owned ⟨ran, s.event, s.created, signaled, s.closed, started, finished,
      update s.thread i x⟩ := by
  have hheld := h.holds i
  have hwon := h.wins i
  have hlost := h.loses i
  rw [hi] at hheld hwon hlost
  apply h.put
  · rfl
  · exact le_rfl
  · exact fun _ => id
  · exact h.guard
  · exact h.closed
  · intro j hj hjholds
    obtain ⟨-, hopen, hne⟩ := h.holds j hjholds
    exact ⟨hopen, hne, fun hx => hcreated ▸ (h.others hi (hholds.mp hx) hj hjholds).2.2⟩
  · rw [hcreated]
    exact fun hx => hheld (hholds.mp hx)
  · exact fun k hk => h.events_update hi hcreated hholds.mpr hk
  · rw [hcreated]
    exact fun hx => hwon (hwins hx)
  · rw [hexisting]
    exact fun hx => hlost (hloses hx)
  · exact hwakes

theorem create (hi : s.thread i = y) (hpc : y.pc = .create) :
    Owned (s.createEvent i) := by
  have hfree : s.closed s.created = false := by
    by_contra habs
    exact absurd (h.closed _ (eq_true_of_ne_false habs)) (Nat.lt_irrefl _)
  rw [createEvent, hi]
  apply h.put
  · rfl
  · exact le_succ _
  · exact fun _ => id
  · exact fun k hk => ⟨(h.guard k hk).1.trans (lt_succ_self _), (h.guard k hk).2⟩
  · exact fun k hk => (h.closed k hk).trans (lt_succ_self _)
  · intro j _ hjholds
    obtain ⟨hlt, hopen, hne⟩ := h.holds j hjholds
    exact ⟨hopen, hne, fun _ => hlt.ne⟩
  · exact fun _ => ⟨lt_succ_self _, hfree, fun habs =>
      absurd (h.guard _ habs).1 (Nat.lt_irrefl _)⟩
  · intro k hk
    rcases Nat.lt_succ_iff_lt_or_eq.mp hk with hlt | rfl
    · rcases h.events k hlt with hguard | hclosed | ⟨j, hj, heq⟩
      · exact .inl hguard
      · exact .inr (.inl hclosed)
      · have e : j ≠ i := by
          rintro rfl
          rw [hi, OnceThread.Holds, hpc] at hj
          cases hj
        refine .inr (.inr ⟨j, ?_⟩)
        rw [update_of_ne e]
        exact ⟨hj, heq⟩
    · refine .inr (.inr ⟨i, ?_⟩)
      rw [update_self]
      exact ⟨rfl, rfl⟩
  · exact nofun
  · exact nofun
  · exact h.wakes_update hi (by rw [hpc]; exact nofun)

theorem win (hi : s.thread i = y) (hpc : y.pc = .exchange)
    (hevent : s.event = none) :
    Owned { s.goto i .callback with event := some y.createdEvent } := by
  have hyholds : y.Holds := by
    rw [OnceThread.Holds, hpc]
    rfl
  have hheld := h.holds i (hi ▸ hyholds)
  rw [hi] at hheld
  rw [goto, hi]
  apply h.put
  · rfl
  · exact le_rfl
  · intro k habs
    cases hevent.symm.trans habs
  · rintro k hk
    cases hk
    exact ⟨hheld.1, hheld.2.1⟩
  · exact h.closed
  · intro j hj hjholds
    obtain ⟨hopen, -, hne⟩ := h.others hi hyholds hj hjholds
    exact ⟨hopen, fun habs => hne (Option.some.inj habs).symm, fun _ => hne⟩
  · exact nofun
  · intro k hk
    rcases h.events k hk with habs | hclosed | ⟨j, hj, heq⟩
    · cases hevent.symm.trans habs
    · exact .inr (.inl hclosed)
    · by_cases e : j = i
      · subst e
        rw [hi] at heq
        exact .inl (congrArg some heq)
      · refine .inr (.inr ⟨j, ?_⟩)
        rw [update_of_ne e]
        exact ⟨hj, heq⟩
  · exact fun _ => rfl
  · exact nofun
  · intro hfinished
    rcases h.wakes hfinished with ⟨k, habs, -⟩ | ⟨j, hj⟩
    · cases hevent.symm.trans habs
    · have habs := h.wins j (by rw [OnceThread.Wins, hj]; rfl)
      cases hevent.symm.trans habs

theorem lose (hi : s.thread i = y) (hpc : y.pc = .exchange) {k : ℕ}
    (hevent : s.event = some k) :
    Owned { s with thread := update s.thread i { y with pc := .closeHandle, existingEvent := k } } := by
  have hyholds : y.Holds := by
    rw [OnceThread.Holds, hpc]
    rfl
  have hheld := h.holds i (hi ▸ hyholds)
  rw [hi] at hheld
  apply h.put
  · rfl
  · exact le_rfl
  · exact fun _ => id
  · exact h.guard
  · exact h.closed
  · intro j hj hjholds
    obtain ⟨hopen, hne, hother⟩ := h.others hi hyholds hj hjholds
    exact ⟨hopen, hne, fun _ => hother⟩
  · exact fun _ => hheld
  · exact fun k' hk => h.events_update
      (x := { y with pc := .closeHandle, existingEvent := k }) hi rfl (fun _ => rfl) hk
  · exact nofun
  · exact fun _ => hevent
  · exact h.wakes_update hi (by rw [hpc]; exact nofun)

theorem close (hi : s.thread i = y) (hpc : y.pc = .closeHandle) :
    Owned { s.goto i .wait with closed := update s.closed y.createdEvent true } := by
  have hyholds : y.Holds := by
    rw [OnceThread.Holds, hpc]
    rfl
  have hheld := h.holds i (hi ▸ hyholds)
  have hlost := h.loses i (by rw [hi, OnceThread.Loses, hpc]; rfl)
  have hother {k : ℕ} (hk : k ≠ y.createdEvent) :
      update s.closed y.createdEvent true k = s.closed k := update_of_ne hk _ _
  rw [hi] at hheld hlost
  rw [goto, hi]
  apply h.put
  · rfl
  · exact le_rfl
  · exact fun _ => id
  · intro k hk
    have hne : k ≠ y.createdEvent := by
      rintro rfl
      exact hheld.2.2 hk
    exact ⟨(h.guard k hk).1, (hother hne).trans (h.guard k hk).2⟩
  · intro k hk
    by_cases e : k = y.createdEvent
    · rw [e]
      exact hheld.1
    · exact h.closed k ((hother e).symm.trans hk)
  · intro j hj hjholds
    obtain ⟨hopen, hne, hdiffers⟩ := h.others hi hyholds hj hjholds
    exact ⟨(hother hdiffers).trans hopen, hne, fun _ => hdiffers⟩
  · exact nofun
  · intro k hk
    by_cases e : k = y.createdEvent
    · exact .inr (.inl (e ▸ update_self ..))
    · rcases h.events k hk with hguard | hclosed | ⟨j, hj, heq⟩
      · exact .inl hguard
      · exact .inr (.inl ((hother e).trans hclosed))
      · have hne : j ≠ i := by
          rintro rfl
          rw [hi] at heq
          exact e heq.symm
        refine .inr (.inr ⟨j, ?_⟩)
        rw [update_of_ne hne]
        exact ⟨hj, heq⟩
  · exact nofun
  · exact fun _ => hlost
  · exact h.wakes_update hi (by rw [hpc]; exact nofun)

end

end Owned

/-! ### Every turn keeps them. -/

def Good (s : Once τ) : Prop := (∃ stage, Staged stage s) ∧ Owned s

theorem Good.move (h : Good s) {pc : OncePc} (pc' : OncePc) {createdEvent existingEvent : ℕ}
    {returns : ℕ} (hi : s.thread i = ⟨pc, createdEvent, existingEvent, returns⟩)
    (hpc : (pc = .idle ∧ pc' = .check) ∨ (pc = .check ∧ pc' = .create)) :
    Good (s.goto i pc') := by
  obtain ⟨⟨stage, hstaged⟩, howned⟩ := h
  rw [goto, hi]
  rcases hpc with ⟨rfl, rfl⟩ | ⟨rfl, rfl⟩
  all_goals
    exact ⟨⟨stage, hstaged.move hi (iff_of_false nofun nofun) (iff_of_false nofun nofun) nofun⟩,
      howned.goOn hi rfl rfl Iff.rfl id id (howned.wakes_update hi nofun)⟩

theorem Good.finish (h : Good s) {pc : OncePc} {createdEvent existingEvent returns : ℕ}
    (hi : s.thread i = ⟨pc, createdEvent, existingEvent, returns⟩)
    (hfinished : Staged .finished s) {ran : Bool}
    (hpc : pc = .check ∨ pc = .wait ∨ pc = .setRan) : Good { s.finish i with ran } := by
  constructor
  · refine ⟨.finished, hfinished.returns hi ?_ ?_⟩
    · rcases hpc with rfl | rfl | rfl <;> exact nofun
    · rcases hpc with rfl | rfl | rfl <;> exact nofun
  · rw [Once.finish, hi]
    rcases hpc with rfl | rfl | rfl
    all_goals exact h.2.goOn hi rfl rfl Iff.rfl nofun nofun (h.2.wakes_update hi nofun)

theorem Good.turn (h : Good s) (ht : s.turn i = some t) : Good t := by
  obtain ⟨⟨stage, hstaged⟩, howned⟩ := h
  cases hi : s.thread i with
  | mk pc createdEvent existingEvent returns =>
    rw [Once.turn, hi] at ht
    cases pc with
    | idle => cases ht
    | check =>
      cases ht
      split
      · next hran =>
        cases hstaged.ran hran
        exact Good.finish ⟨⟨_, hstaged⟩, howned⟩ hi hstaged (.inl rfl)
      · exact Good.move ⟨⟨stage, hstaged⟩, howned⟩ .create hi (.inr ⟨rfl, rfl⟩)
    | create =>
      cases ht
      refine ⟨⟨stage, ?_⟩, howned.create hi rfl⟩
      rw [createEvent, hi]
      exact hstaged.move hi (iff_of_false nofun nofun) (iff_of_false nofun nofun) nofun
    | exchange =>
      cases ht
      rw [exchange]
      cases hevent : s.event with
      | none =>
        simp only [hi]
        exact ⟨⟨_, hstaged.win hi rfl hevent⟩, howned.win hi rfl hevent⟩
      | some k =>
        have hlost : Staged stage ⟨s.ran, s.event, s.created, s.signaled, s.closed, s.started,
            s.finished, update s.thread i ⟨.closeHandle, createdEvent, k, returns⟩⟩ :=
          hstaged.move hi (iff_of_false nofun nofun) (iff_of_false nofun nofun) nofun
        have howns := howned.lose hi rfl hevent
        rw [hevent] at hlost howns
        simp only [hi]
        exact ⟨⟨stage, hlost⟩, howns⟩
    | callback =>
      cases ht
      refine ⟨⟨_, hstaged.start hi rfl⟩, ?_⟩
      rw [goto, hi]
      exact howned.goOn hi rfl rfl Iff.rfl id id (howned.wakes_update hi nofun)
    | inCallback =>
      cases ht
      refine ⟨⟨_, hstaged.finish hi rfl⟩, ?_⟩
      rw [goto, hi]
      refine howned.goOn hi rfl rfl Iff.rfl (fun _ => rfl) nofun fun _ => .inr ⟨i, ?_⟩
      rw [update_self]
    | setEvent =>
      cases ht
      have hfinished := hstaged.late i (by rw [hi]; exact .inl rfl)
      subst hfinished
      have hguard := howned.wins i (by rw [hi]; rfl)
      rw [hi] at hguard
      rw [goto, hi]
      constructor
      · exact ⟨.finished, hstaged.goOn hi rfl rfl rfl rfl (iff_of_false nofun nofun)
          (iff_of_false nofun nofun) (fun _ => rfl) (fun _ => rfl) fun _ _ => rfl⟩
      · exact howned.goOn hi rfl rfl Iff.rfl nofun nofun fun _ =>
          .inl ⟨createdEvent, hguard, update_self _ _ _⟩
    | setRan =>
      cases ht
      have hfinished := hstaged.late i (by rw [hi]; exact .inl rfl)
      subst hfinished
      exact Good.finish ⟨⟨_, hstaged⟩, howned⟩ hi hstaged (.inr (.inr rfl))
    | closeHandle =>
      cases ht
      refine ⟨⟨stage, ?_⟩, howned.close hi rfl⟩
      rw [goto, hi]
      exact hstaged.move hi (iff_of_false nofun nofun) (iff_of_false nofun nofun) nofun
    | wait =>
      obtain ⟨hset, ht⟩ := Option.ite_none_right_eq_some.mp ht
      cases ht
      have hfinished := hstaged.signaled existingEvent hset
      subst hfinished
      exact Good.finish ⟨⟨_, hstaged⟩, howned⟩ hi hstaged (.inr (.inl rfl))

theorem Good.init : Good (uvOnceInit τ) := by
  constructor
  · refine ⟨.fresh, ?_⟩
    constructor
    · rfl
    · rfl
    · exact iff_of_true rfl rfl
    · exact fun i => iff_of_false nofun nofun
    · exact fun i => iff_of_false nofun nofun
    · rintro i (habs | habs)
      · cases habs
      · exact absurd habs (Nat.lt_irrefl 0)
    · exact nofun
    · exact fun k => nofun
  · constructor
    · exact fun k => nofun
    · exact fun k => nofun
    · exact fun i => nofun
    · exact fun i j => nofun
    · exact fun k hk => absurd hk (Nat.not_lt_zero k)
    · exact fun i => nofun
    · exact fun i => nofun
    · exact nofun

theorem Good.of_reachable (h : Reachable (· = uvOnceInit τ) Step s) : Good s := by
  apply h.invariant
  · rintro _ rfl
    exact .init
  · rintro s e t - hs hst
    cases e with
    | call i =>
      obtain ⟨hidle, ht⟩ := Option.ite_none_right_eq_some.mp hst
      cases ht
      cases hi : s.thread i with
      | mk pc createdEvent existingEvent returns =>
        rw [hi] at hidle
        exact hs.move .check hi (.inl ⟨hidle, rfl⟩)
    | turn i => exact hs.turn hst

theorem Good.not_stuck (h : Good s) (hbusy : (s.thread i).pc ≠ .idle) :
    ∃ j t, s.turn j = some t := by
  obtain ⟨⟨stage, hstaged⟩, howned⟩ := h
  cases hpc : (s.thread i).pc with
  | idle => exact absurd hpc hbusy
  | wait =>
    have hevent := howned.loses i (by rw [OnceThread.Loses, hpc]; rfl)
    cases stage with
    | fresh => cases (hstaged.event.mpr rfl).symm.trans hevent
    | won j => exact ⟨j, _, by rw [Once.turn, (hstaged.callback j).mpr rfl]⟩
    | running j => exact ⟨j, _, by rw [Once.turn, (hstaged.inCallback j).mpr rfl]⟩
    | finished =>
      rcases howned.wakes hstaged.ended with ⟨k, hguard, hset⟩ | ⟨j, hj⟩
      · cases Option.some.inj (hguard.symm.trans hevent)
        exact ⟨i, _, by rw [Once.turn, hpc]; exact if_pos hset⟩
      · exact ⟨j, _, by rw [Once.turn, hj]⟩
  | _ => exact ⟨i, _, by rw [Once.turn, hpc]⟩

/-! ### Main result -/

local instance : NeZero 2 := ⟨two_ne_zero⟩

def race : List (Event (Fin 2)) :=
  [.call 0, .call 1] ++ List.replicate 3 (.turn 0) ++ List.replicate 3 (.turn 1) ++
    List.replicate 3 (.turn 0) ++ List.replicate 2 (.turn 1)

def raceRun : Option (Once (Fin 2)) := race.foldlM step (uvOnceInit (Fin 2))

theorem raceRun_isSome : raceRun.isSome = true := by
  rfl

end Once

end LibuvWorks.Win
