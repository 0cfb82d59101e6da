import LibuvWorks.Lib.Transition
import Mathlib.Algebra.Group.Int.Defs
import Mathlib.Algebra.Group.Nat.Defs

/-!
# The time that `uv__io_poll` waits

The loop of `uv__io_poll` calls `epoll_wait` or `epoll_pwait` until there is something to report or
its time is over. A step is a round of that loop: what the call has returned, what came of the
events if there were any, and what `uv__update_time` finds.
-/
namespace LibuvWorks.Unix

open Transition

/-- What a call of `epoll_wait` leads to. `events` are those it has reported, `nevents` the ones of
them that a callback has been run for, and `haveSignals` says that a signal is among these. -/
inductive WaitResult where
  | timedOut
  | interrupted
  | missing
  | reported (nfds nevents : ℕ) (haveSignals : Bool)

structure WakeUp where
  result : WaitResult
  now : ℕ

structure PollWait where
  timeout : ℤ
  time : ℕ

/-- The variables of `uv__io_poll` and the time of the loop. The last fields are the timeout that it
was called with, how many callbacks it has run, whether it has returned, and its calls, the last
first. -/
structure IoPoll where
  timeout : ℤ
  realTimeout : ℤ
  base : ℕ
  time : ℕ
  count : ℕ
  noEpollPwait : Bool
  noEpollWait : Bool
  entry : ℤ
  callbacks : ℕ
  returned : Bool
  waits : List PollWait

namespace IoPoll

def maxSafeTimeout : ℤ := 1789569

/-- The cap on the time to wait, where a `long` has 32 bits. -/
def safeTimeout (long32 : Bool) (timeout : ℤ) : ℤ :=
  if long32 = true ∧ maxSafeTimeout ≤ timeout then maxSafeTimeout else timeout

variable (long32 sigprof : Bool) (s : IoPoll)

def uvReturn : IoPoll := { s with returned := true }

/-- `update_timeout`; the difference is one of 64 bits without a sign, and becomes an `int`. -/
def updateTimeout : Option IoPoll :=
  if s.timeout ≤ 0 then none
  else
    let realTimeout := (s.realTimeout - ((s.time : ℤ) - s.base)).bmod (2 ^ 32)
    let s := { s with realTimeout }
    some (if realTimeout ≤ 0 then s.uvReturn else { s with timeout := realTimeout })

/-- The system has not got the call; the other one is tried. -/
def tryOther : Option IoPoll :=
  let s :=
    if s.noEpollWait = true ∨ (sigprof = true ∧ s.noEpollPwait = false) then
      { s with noEpollPwait := true }
    else { s with noEpollWait := true }
  if (s.noEpollWait && s.noEpollPwait) = true then none else some s

/-- Events are reported. -/
def report (nfds nevents : ℕ) (haveSignals : Bool) : Option IoPoll :=
  let s := { s with callbacks := s.callbacks + nevents }
  if haveSignals = true then some s.uvReturn
  else if nevents ≠ 0 then
    if nfds = 1024 then
      let s := { s with count := s.count - 1 }
      some (if s.count ≠ 0 then { s with timeout := 0 } else s.uvReturn)
    else some s.uvReturn
  else if s.timeout = 0 then some s.uvReturn
  else if s.timeout = -1 then some s
  else s.updateTimeout

/-- The call, up to `uv__update_time` -/
def wake (now : ℕ) : IoPoll :=
  { s with
    timeout := safeTimeout long32 s.timeout
    time := now
    waits := ⟨safeTimeout long32 s.timeout, s.time⟩ :: s.waits }

/-- A round of the loop -/
def next (e : WakeUp) : Option IoPoll :=
  let s := s.wake long32 e.now
  match e.result with
  | .timedOut =>
    if s.timeout = -1 then none
    else if s.timeout = 0 then some s.uvReturn
    else s.updateTimeout
  | .missing => s.tryOther sigprof
  | .interrupted =>
    if s.timeout = -1 then some s
    else if s.timeout = 0 then some s.uvReturn
    else s.updateTimeout
  | .reported nfds nevents haveSignals => s.report nfds nevents haveSignals

/-- The clock does not go back, a call without a timeout does not time out, one of the two calls is
there, and at most 1024 events are reported. -/
def Enabled (e : WakeUp) : Prop :=
  s.returned = false ∧ s.time ≤ e.now ∧
    match e.result with
    | .timedOut => s.timeout ≠ -1
    | .interrupted => True
    | .missing => s.noEpollWait = false ∧ s.noEpollPwait = false
    | .reported nfds nevents haveSignals =>
      0 < nfds ∧ nfds ≤ 1024 ∧ nevents ≤ nfds ∧ (haveSignals = true → 0 < nevents)

instance : DecidablePred s.Enabled := fun e => by
  unfold Enabled
  cases e.result <;> infer_instance

def step (e : WakeUp) : Option IoPoll := if s.Enabled e then s.next long32 sigprof e else none

abbrev Step (s : IoPoll) (e : WakeUp) (t : IoPoll) : Prop := s.step long32 sigprof e = some t

/-- `uv__io_poll` before its loop, for a loop that watches `nfds` descriptors. -/
def start (nfds : ℕ) (timeout : ℤ) (time : ℕ) (noEpollPwait noEpollWait : Bool) : IoPoll where
  timeout := timeout
  realTimeout := timeout
  base := time
  time := time
  count := 48
  noEpollPwait := noEpollPwait
  noEpollWait := noEpollWait
  entry := timeout
  callbacks := 0
  returned := nfds = 0
  waits := []

/-! ## The time that is left -/

variable {long32 sigprof} {s} {t : IoPoll} {e : WakeUp} {now : ℕ}

def left (s : IoPoll) (now : ℕ) : ℤ := s.entry - ((now : ℤ) - s.base)

/-- A return with nothing to report is the first one that finds the clock advanced, or the timeout
is over; then what is left does not become positive as an `int`. -/
def OnTime (s : IoPoll) (now : ℕ) : Prop :=
  (s.realTimeout = s.entry ∨ s.left now ≤ 0) ∧
    (s.left now ≤ 0 → (s.realTimeout - ((now : ℤ) - s.base)).bmod (2 ^ 32) ≤ 0)

/-- As long as no callback was run, all returns with nothing to report are on time, and it takes no
time to find that a call is missing. -/
def Careful (s : IoPoll) (e : WakeUp) : Prop :=
  s.callbacks = 0 →
    match e.result with
    | .timedOut | .interrupted | .reported _ 0 _ => s.OnTime e.now
    | .missing => e.now = s.time
    | .reported _ (_ + 1) _ => True

instance : DecidablePred s.Careful := fun e => by
  unfold Careful
  have : Decidable (s.OnTime e.now) := by
    unfold OnTime
    infer_instance
  obtain ⟨result, now⟩ := e
  cases result with
  | reported nfds nevents haveSignals => cases nevents <;> infer_instance
  | _ => infer_instance

/-- The calls are for what was left of the timeout, and the last one was before it was over. -/
structure Timely (long32 : Bool) (s : IoPoll) : Prop where
  waits : ∀ w ∈ s.waits, 0 < s.left w.time ∧ w.timeout = safeTimeout long32 (s.left w.time)
  returned : s.returned = true → s.left s.time ≤ 0
  waiting : s.returned = false → 0 < s.left s.time

/-- Before a callback is run the next call will be for what is left, and after it the calls do not
wait. -/
structure OnTrack (long32 : Bool) (s : IoPoll) : Prop where
  entry : s.entry < 2 ^ 31
  base : s.base ≤ s.time
  timely : s.callbacks = 0 → s.Timely long32
  timeout : s.callbacks = 0 → s.returned = false → 0 < s.timeout ∧
    safeTimeout long32 s.timeout = safeTimeout long32 (s.left s.time)
  polls : 0 < s.callbacks → s.returned = false → s.timeout = 0

theorem safeTimeout_pos {timeout : ℤ} (h : 0 < timeout) : 0 < safeTimeout long32 timeout := by
  unfold safeTimeout
  split
  · decide
  · exact h

@[simp] theorem safeTimeout_safeTimeout (timeout : ℤ) :
    safeTimeout long32 (safeTimeout long32 timeout) = safeTimeout long32 timeout := by
  unfold safeTimeout
  split <;> simp_all

@[simp] theorem safeTimeout_zero : safeTimeout long32 0 = 0 := by
  unfold safeTimeout
  rw [if_neg]
  rintro ⟨-, habs⟩
  exact absurd habs (by decide)

section

variable (h : s.OnTrack long32)
include h

theorem OnTrack.waits (hnone : s.callbacks = 0)
    (hopen : s.returned = false) : ∀ w ∈ (s.wake long32 now).waits,
      0 < s.left w.time ∧ w.timeout = safeTimeout long32 (s.left w.time) := by
  intro w hw
  obtain rfl | hw := List.mem_cons.mp hw
  · exact ⟨(h.timely hnone).waiting hopen, (h.timeout hnone hopen).2⟩
  · exact (h.timely hnone).waits w hw

theorem OnTrack.updateTimeout (hnone : s.callbacks = 0)
    (hopen : s.returned = false) (hnow : s.time ≤ now) (htime : s.OnTime now) :
    ∃ t, (s.wake long32 now).updateTimeout = some t ∧ t.OnTrack long32 := by
  have hentry := h.entry
  have hbase : s.base ≤ now := Nat.le_trans h.base hnow
  have hpos : ¬(s.wake long32 now).timeout ≤ 0 :=
    Int.not_le.mpr (safeTimeout_pos (h.timeout hnone hopen).1)
  have hwaits : ∀ w ∈ (s.wake long32 now).waits, 0 < s.left w.time ∧
      w.timeout = safeTimeout long32 (s.left w.time) := h.waits hnone hopen
  obtain ⟨r, hr⟩ : ∃ r, r = (s.realTimeout - ((now : ℤ) - s.base)).bmod (2 ^ 32) := ⟨_, rfl⟩
  have hnext : (s.wake long32 now).updateTimeout = some (if r ≤ 0 then
      { s.wake long32 now with realTimeout := r, returned := true }
    else { s.wake long32 now with realTimeout := r, timeout := r }) := by
    rw [hr]
    exact if_neg hpos
  by_cases hleft : s.left now ≤ 0
  · rw [hnext, if_pos (hr ▸ htime.2 hleft)]
    refine ⟨_, rfl, hentry, hbase, fun _ => ⟨hwaits, fun _ => hleft, fun habs => ?_⟩,
      fun _ habs => ?_, fun _ habs => ?_⟩ <;> cases habs
  · have hreal : s.realTimeout = s.entry := htime.1.resolve_right hleft
    have hrleft : r = s.left now := by
      rw [hr]
      unfold left at hleft ⊢
      rw [Int.bmod_eq_of_le_mul_two] <;> omega
    have hrpos : 0 < r := by omega
    rw [hnext, if_neg (Int.not_le.mpr hrpos)]
    refine ⟨_, rfl, hentry, hbase, fun _ => ⟨hwaits, ?_, fun _ => hrleft ▸ hrpos⟩,
      fun _ _ => ⟨hrpos, congrArg _ hrleft⟩, fun habs => ?_⟩
    · intro habs
      cases hopen.symm.trans habs
    · exact absurd hnone (Nat.pos_iff_ne_zero.mp habs)

theorem OnTrack.return (hsome : 0 < s.callbacks) (hnow : s.time ≤ now) :
    (s.wake long32 now).uvReturn.OnTrack long32 := by
  refine ⟨h.entry, Nat.le_trans h.base hnow, ?_, ?_, ?_⟩
  · exact fun habs => absurd habs (Nat.pos_iff_ne_zero.mp hsome)
  · exact fun _ habs => nomatch habs
  · exact fun _ habs => nomatch habs

theorem OnTrack.tryOther
    (hother : s.noEpollWait = false ∧ s.noEpollPwait = false) :
    ∃ t, s.tryOther sigprof = some t ∧ t.OnTrack long32 := by
  obtain ⟨hwait, hpwait⟩ := hother
  unfold IoPoll.tryOther
  split_ifs with hsig
  · refine ⟨_, if_neg (by simp [hwait]), h.entry, h.base, fun hnone => ?_, h.timeout, h.polls⟩
    exact ⟨(h.timely hnone).waits, (h.timely hnone).returned, (h.timely hnone).waiting⟩
  · refine ⟨_, if_neg (by simp [hpwait]), h.entry, h.base, fun hnone => ?_, h.timeout, h.polls⟩
    exact ⟨(h.timely hnone).waits, (h.timely hnone).returned, (h.timely hnone).waiting⟩

theorem OnTrack.wake (hopen : s.returned = false) (hnow : s.time ≤ now)
    (htime : s.callbacks = 0 → now = s.time) : (s.wake long32 now).OnTrack long32 := by
  refine ⟨h.entry, Nat.le_trans h.base hnow, fun hnone => ?_, fun hnone _ => ?_, fun hsome _ => ?_⟩
  · obtain rfl := htime hnone
    exact ⟨h.waits hnone hopen, (h.timely hnone).returned, (h.timely hnone).waiting⟩
  · obtain rfl := htime hnone
    obtain ⟨hpos, heq⟩ := h.timeout hnone hopen
    exact ⟨safeTimeout_pos hpos, (safeTimeout_safeTimeout _).trans heq⟩
  · have hzero := congrArg (safeTimeout long32) (h.polls hsome hopen)
    exact hzero.trans safeTimeout_zero

theorem OnTrack.reported (hnow : s.time ≤ now) {nfds nevents : ℕ}
    {haveSignals : Bool} (hsome : 0 < nevents) :
    ∃ t, (s.wake long32 now).report nfds nevents haveSignals = some t ∧ t.OnTrack long32 := by
  have hcallbacks : s.callbacks + nevents ≠ 0 := by omega
  have htrack : ∀ u : IoPoll, u.entry = s.entry → u.base = s.base → u.time = now →
      u.callbacks = s.callbacks + nevents → (u.returned = false → u.timeout = 0) →
      u.OnTrack long32 := by
    intro u hentry hbase htime hevents hpolls
    refine ⟨hentry ▸ h.entry, ?_, ?_, ?_, fun _ => hpolls⟩
    · rw [hbase, htime]
      exact Nat.le_trans h.base hnow
    · exact fun habs => absurd (hevents.symm.trans habs) hcallbacks
    · exact fun habs => absurd (hevents.symm.trans habs) hcallbacks
  unfold report
  dsimp only
  rw [if_pos (Nat.pos_iff_ne_zero.mp hsome)]
  split_ifs
  · exact ⟨_, rfl, htrack _ rfl rfl rfl rfl fun habs => nomatch habs⟩
  · exact ⟨_, rfl, htrack _ rfl rfl rfl rfl fun _ => rfl⟩
  · exact ⟨_, rfl, htrack _ rfl rfl rfl rfl fun habs => nomatch habs⟩
  · exact ⟨_, rfl, htrack _ rfl rfl rfl rfl fun habs => nomatch habs⟩

theorem OnTrack.idle (hopen : s.returned = false) (hnow : s.time ≤ now)
    (htime : s.callbacks = 0 → s.OnTime now) : (s.wake long32 now).timeout ≠ -1 ∧
      ∃ t, (if (s.wake long32 now).timeout = 0 then some (s.wake long32 now).uvReturn
        else (s.wake long32 now).updateTimeout) = some t ∧ t.OnTrack long32 := by
  by_cases hnone : s.callbacks = 0
  · have hpos : 0 < (s.wake long32 now).timeout := safeTimeout_pos (h.timeout hnone hopen).1
    refine ⟨by omega, ?_⟩
    rw [if_neg (by omega)]
    exact h.updateTimeout hnone hopen hnow (htime hnone)
  · have hsome := Nat.pos_iff_ne_zero.mpr hnone
    have hzero : (s.wake long32 now).timeout = 0 :=
      (congrArg (safeTimeout long32) (h.polls hsome hopen)).trans safeTimeout_zero
    refine ⟨by omega, ?_⟩
    rw [if_pos hzero]
    exact ⟨_, rfl, h.return hsome hnow⟩

theorem OnTrack.next (henabled : s.Enabled e) (hcareful : s.Careful e) :
    ∃ t, s.next long32 sigprof e = some t ∧ t.OnTrack long32 := by
  obtain ⟨result, now⟩ := e
  obtain ⟨hopen, hnow, hresult⟩ := henabled
  cases result with
  | timedOut | interrupted =>
    obtain ⟨hfinite, hidle⟩ := h.idle hopen hnow hcareful
    rw [IoPoll.next]
    dsimp only
    rwa [if_neg hfinite]
  | missing => exact (h.wake hopen hnow hcareful).tryOther hresult
  | reported nfds nevents haveSignals =>
    cases nevents with
    | zero =>
      obtain ⟨hfinite, hidle⟩ := h.idle hopen hnow hcareful
      have hnosignal : haveSignals = false := by
        by_contra hsignal
        exact absurd (hresult.2.2.2 (by simpa using hsignal)) (Nat.lt_irrefl 0)
      subst hnosignal
      rw [IoPoll.next]
      simp only [report, Bool.false_eq_true, if_false, ne_eq, not_true_eq_false, Nat.add_zero]
      rwa [if_neg hfinite]
    | succ nevents => exact h.reported hnow (Nat.succ_pos nevents)

end

theorem start_onTrack {nfds time : ℕ} {timeout : ℤ} {noPwait noWait : Bool} (hnfds : 0 < nfds)
    (hpos : 0 < timeout) (hint : timeout < 2 ^ 31) :
    (start nfds timeout time noPwait noWait).OnTrack long32 := by
  have hleft : (start nfds timeout time noPwait noWait).left time = timeout := by
    simp [left, start]
  refine ⟨hint, Nat.le_refl _, fun _ => ⟨?_, ?_, ?_⟩, fun _ _ => ⟨hpos, ?_⟩, ?_⟩
  · intro w hw
    cases hw
  · intro habs
    exact absurd (of_decide_eq_true habs) (Nat.pos_iff_ne_zero.mp hnfds)
  · intro _
    exact Int.lt_of_lt_of_le hpos (Int.le_of_eq hleft.symm)
  · exact congrArg _ hleft.symm
  · intro habs
    cases habs

/-- As long as it runs no callback, `uv__io_poll` waits each time for exactly what is left of its
timeout, up to a cap, and returns at the first wake-up after it is over: if there is at most one
wake-up with nothing to report before, and the clock does not run too far ahead. -/
theorem uvIoPoll_timely {timeout : ℤ} (hpos : 0 < timeout) (hint : timeout < 2 ^ 31)
    (h : Reachable (fun s => ∃ nfds time noPwait noWait, 0 < nfds ∧
      s = start nfds timeout time noPwait noWait) (Guarded Careful (Step long32 sigprof)) s)
    (hnone : s.callbacks = 0) : s.Timely long32 := by
  have htrack : s.OnTrack long32 := by
    apply Reachable.invariant_of_guarded (P := OnTrack long32) h
    · rintro s ⟨nfds, time, noPwait, noWait, hnfds, rfl⟩
      exact start_onTrack hnfds hpos hint
    · intro s e hs henabled hcareful
      exact hs.next henabled hcareful
  exact htrack.timely hnone

/-! ### Concrete runs -/

/-- The clock advances by seven of ten milliseconds, and then the timeout is over. -/
def lateRun : Option IoPoll :=
  [WakeUp.mk .interrupted 7, ⟨.reported 3 0 false, 12⟩].foldlM
    (fun s e => if s.Careful e then s.step false false e else none) (start 1 10 0 false false)

theorem lateRun_isSome : lateRun.isSome = true := rfl

theorem uvIoPoll_timely_late : (lateRun.get lateRun_isSome).left
    (lateRun.get lateRun_isSome).time ≤ 0 := by
  have hrun : Reachable (fun s => ∃ nfds time noPwait noWait, 0 < nfds ∧
      s = start nfds 10 time noPwait noWait) (Guarded Careful (Step false false))
      (lateRun.get lateRun_isSome) :=
    .of_foldlM_if (.init ⟨1, 0, false, false, by decide, rfl⟩) (Option.some_get lateRun_isSome).symm
  exact (uvIoPoll_timely (by decide) (by decide) hrun rfl).returned rfl

def earlyRun : Option IoPoll :=
  [WakeUp.mk .interrupted 4, ⟨.interrupted, 7⟩].foldlM (fun s e => s.step false false e)
    (start 1 10 0 false false)

theorem earlyRun_isSome : earlyRun.isSome = true := rfl

/-- The time of the first call is taken off twice, and the function returns three milliseconds too
early. -/
theorem returns_early : Reachable (· = start 1 10 0 false false) (Step false false)
    (earlyRun.get earlyRun_isSome) ∧ (earlyRun.get earlyRun_isSome).callbacks = 0 ∧
    ¬(earlyRun.get earlyRun_isSome).Timely false := by
  refine ⟨?_, rfl, fun h => ?_⟩
  · exact .of_foldlM (.init rfl) (Option.some_get earlyRun_isSome).symm
  · exact absurd (h.returned rfl) (by decide)

end IoPoll

end LibuvWorks.Unix
