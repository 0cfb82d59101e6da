import LibuvWorks.Lib.Threads

/-!
# Barriers: `win/thread.c`

The threads take turns at every lock, unlock, wait and post of `uv_barrier_wait`.
-/
open Option Function

namespace LibuvWorks.Win

open Function (update)

/-- Where a thread is in `uv_barrier_wait`; at the end with the value of `serial_thread`. -/
inductive BarrierPc where
  | idle : BarrierPc
  | lock1 : BarrierPc
  /-- `++barrier->count == barrier->n` -/
  | count1 : BarrierPc
  /-- `uv_sem_wait(&barrier->turnstile2)` of the last thread to arrive -/
  | wait2 : BarrierPc
  | post1 : BarrierPc
  | unlock1 : BarrierPc
  /-- `uv_sem_wait(&barrier->turnstile1)` -/
  | wait1 : BarrierPc
  | repost1 : BarrierPc
  | lock2 : BarrierPc
  /-- `--barrier->count == 0` -/
  | count2 : BarrierPc
  /-- `uv_sem_wait(&barrier->turnstile1)` of the last thread to leave -/
  | drain1 : BarrierPc
  | post2 : BarrierPc
  | unlock2 (serial : Bool) : BarrierPc
  /-- `uv_sem_wait(&barrier->turnstile2)` -/
  | pass2 (serial : Bool) : BarrierPc
  | repost2 (serial : Bool) : BarrierPc
  deriving DecidableEq

/-- A thread: where it is, how many calls of `uv_barrier_wait` it has made, and what those that
have returned returned, in order. -/
structure BarrierThread where
  pc : BarrierPc
  entered : ℕ
  returns : List Bool

/-- `uv_barrier_t`, with the owner of its mutex, the values of its semaphores, and the threads. -/
structure Barrier (τ : Type*) where
  n : ℕ
  count : ℕ
  mutex : Option τ
  turnstile1 : ℕ
  turnstile2 : ℕ
  thread : τ → BarrierThread

namespace Barrier

/-- `uv_barrier_init`, before any call -/
def uvBarrierInit (τ : Type*) (n : ℕ) : Barrier τ := ⟨n, 0, none, 0, 1, fun _ => ⟨.idle, 0, []⟩⟩

variable {τ : Type*} [DecidableEq τ] (s : Barrier τ) (i : τ)

def goto (pc : BarrierPc) : Barrier τ :=
  { s with thread := update s.thread i { s.thread i with pc } }

/-- `uv_mutex_lock` -/
def lock (pc : BarrierPc) : Option (Barrier τ) :=
  if s.mutex = none then some { s.goto i pc with mutex := some i } else none

/-- `uv_mutex_unlock` -/
def unlock (pc : BarrierPc) : Barrier τ := { s.goto i pc with mutex := none }

/-- `uv_sem_wait(&barrier->turnstile1)` -/
def semWait1 (pc : BarrierPc) : Option (Barrier τ) :=
  if 0 < s.turnstile1 then some { s.goto i pc with turnstile1 := s.turnstile1 - 1 } else none

/-- `uv_sem_wait(&barrier->turnstile2)` -/
def semWait2 (pc : BarrierPc) : Option (Barrier τ) :=
  if 0 < s.turnstile2 then some { s.goto i pc with turnstile2 := s.turnstile2 - 1 } else none

/-- `uv_sem_post(&barrier->turnstile1)` -/
def semPost1 (pc : BarrierPc) : Barrier τ := { s.goto i pc with turnstile1 := s.turnstile1 + 1 }

/-- `uv_sem_post(&barrier->turnstile2)` -/
def semPost2 (pc : BarrierPc) : Barrier τ := { s.goto i pc with turnstile2 := s.turnstile2 + 1 }

/-- `uv_sem_post(&barrier->turnstile2)`, and `uv_barrier_wait` returns. -/
def finish (serial : Bool) : Barrier τ :=
  let x := s.thread i
  { s with
    turnstile2 := s.turnstile2 + 1
    thread := update s.thread i { x with pc := .idle, returns := x.returns ++ [serial] } }

/-- A turn of a thread in `uv_barrier_wait`; `none` where it waits. -/
def turn : Option (Barrier τ) :=
  match (s.thread i).pc with
  | .idle => none
  | .lock1 => s.lock i .count1
  | .count1 =>
    let pc := if s.count + 1 = s.n then .wait2 else .unlock1
    some { s.goto i pc with count := s.count + 1 }
  | .wait2 => s.semWait2 i .post1
  | .post1 => some (s.semPost1 i .unlock1)
  | .unlock1 => some (s.unlock i .wait1)
  | .wait1 => s.semWait1 i .repost1
  | .repost1 => some (s.semPost1 i .lock2)
  | .lock2 => s.lock i .count2
  | .count2 =>
    let pc := if s.count - 1 = 0 then .drain1 else .unlock2 false
    some { s.goto i pc with count := s.count - 1 }
  | .drain1 => s.semWait1 i .post2
  | .post2 => some (s.semPost2 i (.unlock2 true))
  | .unlock2 serial => some (s.unlock i (.pass2 serial))
  | .pass2 serial => s.semWait2 i (.repost2 serial)
  | .repost2 serial => some (s.finish i serial)

/-- A thread calls `uv_barrier_wait`. -/
def call : Barrier τ :=
  let x := s.thread i
  { s with thread := update s.thread i { x with pc := .lock1, entered := x.entered + 1 } }

inductive Event (τ : Type*) where
  | call (i : τ) : Event τ
  | turn (i : τ) : Event τ

def step : Event τ → Option (Barrier τ)
  | .call i => if (s.thread i).pc = .idle then some (s.call i) else none
  | .turn i => s.turn i

def Step (s : Barrier τ) (e : Event τ) (t : Barrier τ) : Prop := s.step e = some t

end Barrier

end LibuvWorks.Win

/-!
## Rounds of a barrier

A round has four phases: the threads arrive, the last of them opens the first turnstile, all pass
it, and the last one to leave closes it and opens the second turnstile. Fast threads may arrive for
the next round while others still pass the second turnstile, but none passes the first one before
all have arrived.
-/
namespace LibuvWorks.Win

open Function (update)
open Mutex Threads Transition

inductive BarrierPhase where
  | gather : BarrierPhase
  | armed : BarrierPhase
  | release : BarrierPhase
  | closing : BarrierPhase
  deriving DecidableEq

namespace BarrierPc

def inMutex : BarrierPc → Bool
  | .count1 | .wait2 | .post1 | .unlock1 | .count2 | .drain1 | .post2 | .unlock2 _ => true
  | _ => false

/-- `barrier->count` counts the thread. -/
def counted : BarrierPc → Bool
  | .wait2 | .post1 | .unlock1 | .wait1 | .repost1 | .lock2 | .count2 => true
  | _ => false

def leaves : BarrierPc → Bool
  | .drain1 | .post2 | .unlock2 _ | .pass2 _ | .repost2 _ => true
  | _ => false

def turns : BarrierPc → Bool
  | .wait2 | .post1 | .drain1 | .post2 => true
  | _ => false

/-- Where the threads can be in a phase. -/
def allowed : BarrierPhase → BarrierPc → Bool
  | .gather, .idle | .gather, .lock1 | .gather, .count1 | .gather, .wait2 => true
  | .gather, .unlock1 | .gather, .wait1 => true
  | .gather, .unlock2 _ | .gather, .pass2 _ | .gather, .repost2 _ => true
  | .armed, .post1 | .armed, .unlock1 | .armed, .wait1 => true
  | .release, .unlock1 | .release, .wait1 | .release, .repost1 | .release, .lock2 => true
  | .release, .count2 | .release, .drain1 | .release, .unlock2 _ | .release, .pass2 _ => true
  | .closing, .post2 | .closing, .unlock2 _ | .closing, .pass2 _ => true
  | _, _ => false

attribute [local simp] inMutex counted turns allowed

variable {pc : BarrierPc}

theorem inMutex_of_turns (h : pc.turns = true) : pc.inMutex = true := by
  cases pc <;> first | rfl | cases h

/-! Outside of the mutex, threads wait at a turnstile when a phase ends. -/

theorem eq_wait1_of_gather (h : pc.allowed .gather = true)
    (hcounted : pc.counted = true) (hout : pc.inMutex = false) : pc = .wait1 := by
  cases pc <;> simp_all only [allowed, counted, inMutex, reduceCtorEq]

theorem eq_wait1_of_armed (h : pc.allowed .armed = true)
    (hout : pc.inMutex = false) : pc = .wait1 := by
  cases pc <;> simp_all only [allowed, inMutex, reduceCtorEq]

theorem eq_pass2_of_release (h : pc.allowed .release = true)
    (hcounted : pc.counted = false) (hout : pc.inMutex = false) : ∃ b, pc = .pass2 b := by
  cases pc with
  | pass2 b => exact ⟨b, rfl⟩
  | _ => simp_all only [allowed, counted, inMutex, reduceCtorEq]

theorem eq_pass2_of_closing (h : pc.allowed .closing = true)
    (hout : pc.inMutex = false) : ∃ b, pc = .pass2 b := by
  cases pc with
  | pass2 b => exact ⟨b, rfl⟩
  | _ => simp_all only [allowed, inMutex, reduceCtorEq]

/-! Where they can be while a phase goes on -/

theorem cases_of_gather (h : pc.allowed .gather = true)
    (hout : pc.inMutex = false) : pc = .idle ∨ pc = .lock1 ∨ pc = .wait1 ∨
      ∃ serial, pc = .pass2 serial ∨ pc = .repost2 serial := by
  cases pc <;> simp_all

theorem cases_of_release (h : pc.allowed .release = true)
    (hcounted : pc.counted = true) (hout : pc.inMutex = false) :
    pc = .wait1 ∨ pc = .repost1 ∨ pc = .lock2 := by
  cases pc <;> simp_all

theorem counted_of_closing (h : pc.allowed .closing = true) :
    pc.counted = false := by
  cases pc <;> first | rfl | cases h

end BarrierPc

/-- Where a thread must be to end the phase, when it is due to end. -/
def BarrierPhase.due : BarrierPhase → ℕ → ℕ → Option BarrierPc
  | .gather, n, count => if count = n then some .wait2 else none
  | .armed, _, _ => some .post1
  | .release, _, count => if count = 0 then some .drain1 else none
  | .closing, _, _ => some .post2

theorem BarrierPhase.turns_of_due {phase : BarrierPhase} {n count : ℕ} {pc : BarrierPc}
    (h : phase.due n count = some pc) : pc.turns = true := by
  cases phase with
  | gather =>
    obtain ⟨-, hpc⟩ := ite_none_right_eq_some.mp h
    cases hpc
    rfl
  | armed =>
    cases h
    rfl
  | release =>
    obtain ⟨-, hpc⟩ := ite_none_right_eq_some.mp h
    cases hpc
    rfl
  | closing =>
    cases h
    rfl

def BarrierPhase.gate1 (phase : BarrierPhase) : ℕ := if phase = .release then 1 else 0

def BarrierPhase.gate2 (phase : BarrierPhase) : ℕ := if phase = .gather then 1 else 0

namespace BarrierThread

def InMutex (x : BarrierThread) : Prop := x.pc.inMutex = true

def counted (x : BarrierThread) : ℕ := x.pc.counted.toNat

def reposts1 (x : BarrierThread) : ℕ := if x.pc = .repost1 then 1 else 0

/-- The thread has passed the second turnstile and is about to post it. -/
def reposts2 (x : BarrierThread) : ℕ :=
  match x.pc with
  | .repost2 _ => 1
  | _ => 0

/-- The thread is in the round `gen`, or still leaves the round before while others arrive. -/
structure Placed (phase : BarrierPhase) (gen : ℕ) (x : BarrierThread) : Prop where
  allowed : x.pc.allowed phase = true
  round : x.returns.length + (phase.gate2 * x.pc.leaves.toNat) = gen
  entered : x.entered = x.returns.length + (if x.pc = .idle then 0 else 1)

end BarrierThread

namespace Barrier

variable {τ : Type*} [DecidableEq τ] [Fintype τ] {s t : Barrier τ} {i j : τ} {e : Event τ}
  {phase phase' : BarrierPhase} {gen gen' : ℕ}

/-- What holds of a barrier and its threads in a phase of round `gen`. -/
structure Turning (phase : BarrierPhase) (gen : ℕ) (s : Barrier τ) : Prop where
  size : s.n = Fintype.card τ
  guards : Guards s.mutex fun j => (s.thread j).InMutex
  count : s.count = total s.thread BarrierThread.counted
  gate1 : s.turnstile1 + total s.thread BarrierThread.reposts1 = phase.gate1
  gate2 : s.turnstile2 + total s.thread BarrierThread.reposts2 = phase.gate2
  placed : ∀ j, (s.thread j).Placed phase gen
  turns : ∀ j, (s.thread j).pc.turns = true → phase.due s.n s.count = some (s.thread j).pc
  watch : ∀ pc, phase.due s.n s.count = some pc → ∃ j, (s.thread j).pc = pc

namespace Turning

variable {x : BarrierThread} {turnstile1 turnstile2 : ℕ}

theorem put (h : Turning phase gen s) {y : BarrierThread} (hi : s.thread i = y) {mutex : Option τ}
    {count : ℕ} (hguards : Guards mutex fun j => (update s.thread i x j).InMutex)
    (hcount : count + y.counted = s.count + x.counted)
    (hgate1 : turnstile1 + x.reposts1 + phase.gate1 = s.turnstile1 + y.reposts1 + phase'.gate1)
    (hgate2 : turnstile2 + x.reposts2 + phase.gate2 = s.turnstile2 + y.reposts2 + phase'.gate2)
    (hplaced : ∀ j, (update s.thread i x j).Placed phase' gen')
    (hothers : y.InMutex ∨ (phase' = phase ∧ count = s.count))
    (hturns : x.pc.turns = true → phase'.due s.n count = some x.pc)
    (hwatch : ∀ pc, phase'.due s.n count = some pc →
      x.pc = pc ∨ (phase' = phase ∧ count = s.count ∧ y.pc ≠ pc)) :
    Turning phase' gen' ⟨s.n, count, mutex, turnstile1, turnstile2, update s.thread i x⟩ := by
  subst hi
  constructor
  · exact h.size
  · exact hguards
  · have hcounted := total_update s.thread BarrierThread.counted i x
    have hold := h.count
    change count = total (update s.thread i x) _
    omega
  · have hreposts := total_update s.thread BarrierThread.reposts1 i x
    have hold := h.gate1
    change turnstile1 + total (update s.thread i x) _ = phase'.gate1
    omega
  · have hreposts := total_update s.thread BarrierThread.reposts2 i x
    have hold := h.gate2
    change turnstile2 + total (update s.thread i x) _ = phase'.gate2
    omega
  · exact hplaced
  · intro j hj
    change (update s.thread i x j).pc.turns = true at hj
    change phase'.due s.n count = some (update s.thread i x j).pc
    by_cases e : j = i
    · subst e
      rw [update_self] at hj ⊢
      exact hturns hj
    · rw [update_of_ne e] at hj ⊢
      rcases hothers with hin | ⟨rfl, rfl⟩
      · exact absurd (h.guards.unique (BarrierPc.inMutex_of_turns hj) hin) e
      · exact h.turns j hj
  · intro pc hpc
    rcases hwatch pc hpc with hx | ⟨rfl, rfl, hy⟩
    · refine ⟨i, ?_⟩
      change (update s.thread i x i).pc = pc
      rw [update_self]
      exact hx
    · obtain ⟨j, hj⟩ := h.watch pc hpc
      have e : j ≠ i := by
        rintro rfl
        exact hy hj
      refine ⟨j, ?_⟩
      change (update s.thread i x j).pc = pc
      rw [update_of_ne e]
      exact hj

theorem goOn (h : Turning phase gen s) {y : BarrierThread} (hi : s.thread i = y) {mutex : Option τ}
    (hguards : Guards mutex fun j => (update s.thread i x j).InMutex)
    (hcount : y.counted = x.counted) (hgate1 : turnstile1 + x.reposts1 = s.turnstile1 + y.reposts1)
    (hgate2 : turnstile2 + x.reposts2 = s.turnstile2 + y.reposts2)
    (hplaced : x.Placed phase gen) (hy : y.pc.turns = false) (hx : x.pc.turns = false) :
    Turning phase gen ⟨s.n, s.count, mutex, turnstile1, turnstile2, update s.thread i x⟩ := by
  apply h.put hi hguards
  · rw [hcount]
  · omega
  · omega
  · exact forall_update (P := fun _ => BarrierThread.Placed phase gen) h.placed hplaced
  · exact .inr ⟨rfl, rfl⟩
  · intro habs
    cases hx.symm.trans habs
  · intro pc hpc
    refine .inr ⟨rfl, rfl, fun habs => ?_⟩
    rw [habs] at hy
    cases hy.symm.trans (BarrierPhase.turns_of_due hpc)

/-! ### Steps within a phase -/

section

variable (h : Turning phase gen s)
include h

omit [DecidableEq τ] in
theorem allowed {y : BarrierThread} (hi : s.thread i = y) :
    y.pc.allowed phase = true :=
  hi ▸ (h.placed i).allowed

omit [DecidableEq τ] in
theorem owns {y : BarrierThread} (hi : s.thread i = y)
    (hin : y.pc.inMutex = true) : Guards (some i) fun j => (s.thread j).InMutex := by
  have howner : s.mutex = some i := by
    apply (h.guards i).mpr
    change (s.thread i).pc.inMutex = true
    rw [hi]
    exact hin
  rw [← howner]
  exact h.guards

theorem guards_stay {x y : BarrierThread} (hi : s.thread i = y)
    (hin : x.pc.inMutex = y.pc.inMutex) :
    Guards s.mutex fun j => (update s.thread i x j).InMutex := by
  apply guards_keep h.guards
  rw [hi, BarrierThread.InMutex, hin]
  exact Iff.rfl

variable {returns : List Bool} {entered : ℕ} {pc : BarrierPc}

theorem moved (pc' : BarrierPc)
    (hi : s.thread i = ⟨pc, entered, returns⟩) {mutex : Option τ}
    {turnstile1 turnstile2 : ℕ}
    (hguards : Guards mutex fun j => (update s.thread i ⟨pc', entered, returns⟩ j).InMutex)
    (hallowed : pc.allowed phase = true → pc'.allowed phase = true)
    (hsame : pc'.leaves = pc.leaves ∧ pc.counted = pc'.counted)
    (hgate1 : turnstile1 + BarrierThread.reposts1 ⟨pc', entered, returns⟩ =
      s.turnstile1 + BarrierThread.reposts1 ⟨pc, entered, returns⟩)
    (hgate2 : turnstile2 + BarrierThread.reposts2 ⟨pc', entered, returns⟩ =
      s.turnstile2 + BarrierThread.reposts2 ⟨pc, entered, returns⟩)
    (hbusy : pc ≠ .idle ∧ pc' ≠ .idle) (hturns : pc.turns = false ∧ pc'.turns = false) :
    Turning phase gen ⟨s.n, s.count, mutex, turnstile1, turnstile2,
      update s.thread i ⟨pc', entered, returns⟩⟩ := by
  have hplaced := h.placed i
  rw [hi] at hplaced
  apply h.goOn hi hguards
  · exact congrArg Bool.toNat hsame.2
  · exact hgate1
  · exact hgate2
  · constructor
    · exact hallowed hplaced.allowed
    · have hround := hplaced.round
      rw [show pc'.leaves = pc.leaves from hsame.1]
      exact hround
    · have hentered := hplaced.entered
      rw [if_neg hbusy.1] at hentered
      rw [if_neg hbusy.2]
      exact hentered
  · exact hturns.1
  · exact hturns.2

theorem call (hidle : (s.thread i).pc = .idle) :
    Turning phase gen (s.call i) := by
  cases hi : s.thread i with
  | mk pc entered returns =>
    rw [hi] at hidle
    cases show pc = .idle from hidle
    have hplaced := h.placed i
    have hallowed := h.allowed hi
    rw [hi] at hplaced
    rw [Barrier.call, hi]
    apply h.goOn hi
    · exact h.guards_stay hi rfl
    · rfl
    · rfl
    · rfl
    · constructor
      · cases phase <;> first | rfl | cases hallowed
      · exact hplaced.round
      · exact congrArg (· + 1) hplaced.entered
    · rfl
    · rfl

theorem lock (pc' : BarrierPc)
    (hi : s.thread i = ⟨pc, entered, returns⟩)
    (hpc : (pc = .lock1 ∧ pc' = .count1) ∨ (pc = .lock2 ∧ pc' = .count2))
    (ht : s.lock i pc' = some t) : Turning phase gen t := by
  obtain ⟨hfree, ht⟩ := ite_none_right_eq_some.mp ht
  cases ht
  have hguards := h.guards
  rw [hfree] at hguards
  rw [goto, hi]
  rcases hpc with ⟨rfl, rfl⟩ | ⟨rfl, rfl⟩
  · exact h.moved .count1 hi (guards_take hguards rfl) (by cases phase <;> exact id) ⟨rfl, rfl⟩ rfl
      rfl ⟨nofun, nofun⟩ ⟨rfl, rfl⟩
  · exact h.moved .count2 hi (guards_take hguards rfl) (by cases phase <;> exact id) ⟨rfl, rfl⟩ rfl
      rfl ⟨nofun, nofun⟩ ⟨rfl, rfl⟩

theorem unlock (pc' : BarrierPc)
    (hi : s.thread i = ⟨pc, entered, returns⟩)
    (hpc : (pc = .unlock1 ∧ pc' = .wait1) ∨ ∃ b, pc = .unlock2 b ∧ pc' = .pass2 b) :
    Turning phase gen (s.unlock i pc') := by
  rw [Barrier.unlock, goto, hi]
  rcases hpc with ⟨rfl, rfl⟩ | ⟨b, rfl, rfl⟩
  · exact h.moved .wait1 hi (guards_release (h.owns hi rfl) nofun) (by cases phase <;> exact id)
      ⟨rfl, rfl⟩ rfl rfl ⟨nofun, nofun⟩ ⟨rfl, rfl⟩
  · exact h.moved (.pass2 b) hi (guards_release (h.owns hi rfl) nofun)
      (by cases phase <;> exact id) ⟨rfl, rfl⟩ rfl rfl ⟨nofun, nofun⟩ ⟨rfl, rfl⟩

omit [DecidableEq τ] in
theorem release_of_open (hopen : 0 < s.turnstile1) :
    phase = .release := by
  have hgate := h.gate1
  by_contra hne
  rw [BarrierPhase.gate1, if_neg hne] at hgate
  omega

omit [DecidableEq τ] in
theorem gather_of_open (hopen : 0 < s.turnstile2) :
    phase = .gather := by
  have hgate := h.gate2
  by_contra hne
  rw [BarrierPhase.gate2, if_neg hne] at hgate
  omega

theorem wait1
    (hi : s.thread i = ⟨.wait1, entered, returns⟩) (ht : s.semWait1 i .repost1 = some t) :
    Turning phase gen t := by
  obtain ⟨hopen, ht⟩ := ite_none_right_eq_some.mp ht
  cases ht
  cases h.release_of_open hopen
  rw [goto, hi]
  exact h.moved .repost1 hi (h.guards_stay hi rfl) (fun _ => rfl) ⟨rfl, rfl⟩
    (Nat.sub_add_cancel hopen) rfl ⟨nofun, nofun⟩ ⟨rfl, rfl⟩

theorem repost1
    (hi : s.thread i = ⟨.repost1, entered, returns⟩) :
    Turning phase gen (s.semPost1 i .lock2) := by
  rw [semPost1, goto, hi]
  exact h.moved .lock2 hi (h.guards_stay hi rfl) (by cases phase <;> exact id) ⟨rfl, rfl⟩ rfl rfl
    ⟨nofun, nofun⟩ ⟨rfl, rfl⟩

theorem pass2 {serial : Bool}
    (hi : s.thread i = ⟨.pass2 serial, entered, returns⟩)
    (ht : s.semWait2 i (.repost2 serial) = some t) : Turning phase gen t := by
  obtain ⟨hopen, ht⟩ := ite_none_right_eq_some.mp ht
  cases ht
  cases h.gather_of_open hopen
  rw [goto, hi]
  exact h.moved (.repost2 serial) hi (h.guards_stay hi rfl) (fun _ => rfl) ⟨rfl, rfl⟩ rfl
    (Nat.sub_add_cancel hopen) ⟨nofun, nofun⟩ ⟨rfl, rfl⟩

theorem finish {serial : Bool}
    (hi : s.thread i = ⟨.repost2 serial, entered, returns⟩) :
    Turning phase gen (s.finish i serial) := by
  have hallowed := h.allowed hi
  have hplaced := h.placed i
  rw [hi] at hplaced
  have hgather : phase = .gather := by
    cases phase <;> first | rfl | cases hallowed
  subst hgather
  rw [Barrier.finish, hi]
  apply h.goOn hi
  · exact h.guards_stay hi rfl
  · rfl
  · rfl
  · rfl
  · constructor
    · rfl
    · have hround := hplaced.round
      change returns.length + 1 = gen at hround
      rw [List.length_append]
      exact hround
    · rw [List.length_append]
      exact hplaced.entered
  · rfl
  · rfl

end

/-! ### The count -/

section

omit [DecidableEq τ]

theorem count_pos (h : Turning phase gen s) (hi : (s.thread i).pc.counted = true) :
    0 < s.count := by
  have hle := le_total s.thread BarrierThread.counted i
  rw [BarrierThread.counted, hi, ← h.count] at hle
  exact hle

theorem counted_of_full (h : Turning phase gen s) (hfull : s.count = s.n) (j : τ) :
    (s.thread j).pc.counted = true := by
  have hone := eq_one_of_total (fun x : BarrierThread => Bool.toNat_le x.pc.counted)
    (h.count.symm.trans (hfull.trans h.size)) j
  by_contra hnot
  rw [eq_false_of_ne_true hnot] at hone
  cases hone

theorem counted_of_empty (h : Turning phase gen s) (hzero : s.count = 0) (j : τ) :
    (s.thread j).pc.counted = false := by
  have hnone := total_eq_zero.mp (h.count.symm.trans hzero) j
  by_contra hset
  rw [BarrierThread.counted, eq_true_of_ne_false hset] at hnone
  cases hnone

theorem open2_of_full (h : Turning .gather gen s) (hfull : s.count = s.n) : 0 < s.turnstile2 := by
  have hgate : s.turnstile2 + _ = 1 := h.gate2
  have hnone : total s.thread BarrierThread.reposts2 = 0 := by
    refine total_eq_zero.mpr fun j => ?_
    have hcounted := h.counted_of_full hfull j
    rw [BarrierThread.reposts2]
    split
    · next habs =>
      rw [habs] at hcounted
      cases hcounted
    · rfl
  omega

theorem open1_of_empty (h : Turning .release gen s) (hzero : s.count = 0) : 0 < s.turnstile1 := by
  have hgate : s.turnstile1 + _ = 1 := h.gate1
  have hnone : total s.thread BarrierThread.reposts1 = 0 := by
    refine total_eq_zero.mpr fun j => if_neg fun habs => ?_
    have hcounted := h.counted_of_empty hzero j
    rw [habs] at hcounted
    cases hcounted
  omega

end

variable {returns : List Bool}

theorem inside (h : Turning phase gen s) {pc pc' : BarrierPc} {entered count : ℕ}
    (hi : s.thread i = ⟨pc, entered, returns⟩)
    (hin : pc.inMutex = true ∧ pc'.inMutex = true)
    (hcount : count + pc.counted.toNat = s.count + pc'.counted.toNat)
    (hgate1 : turnstile1 + BarrierThread.reposts1 ⟨pc', entered, returns⟩ + phase.gate1 =
      s.turnstile1 + BarrierThread.reposts1 ⟨pc, entered, returns⟩ + phase'.gate1)
    (hgate2 : turnstile2 + BarrierThread.reposts2 ⟨pc', entered, returns⟩ + phase.gate2 =
      s.turnstile2 + BarrierThread.reposts2 ⟨pc, entered, returns⟩ + phase'.gate2)
    (hplaced : ∀ j, (update s.thread i ⟨pc', entered, returns⟩ j).Placed phase' gen')
    (hdue : phase'.due s.n count = if pc'.turns = true then some pc' else none) :
    Turning phase' gen' ⟨s.n, count, s.mutex, turnstile1, turnstile2,
      update s.thread i ⟨pc', entered, returns⟩⟩ := by
  apply h.put hi
  · exact h.guards_stay hi (hin.2.trans hin.1.symm)
  · exact hcount
  · exact hgate1
  · exact hgate2
  · exact hplaced
  · exact .inl hin.1
  · exact fun hturns => hdue.trans (if_pos hturns)
  · intro k hk
    rw [hdue] at hk
    exact .inl (Option.some.inj (ite_none_right_eq_some.mp hk).2)

variable {entered : ℕ}

theorem count1 (h : Turning phase gen s)
    (hi : s.thread i = ⟨.count1, entered, returns⟩) :
    Turning phase gen ⟨s.n, s.count + 1, s.mutex, s.turnstile1, s.turnstile2, update s.thread i
      ⟨if s.count + 1 = s.n then .wait2 else .unlock1, entered, returns⟩⟩ := by
  have hallowed := h.allowed hi
  have hplaced := h.placed i
  rw [hi] at hplaced
  have hgather : phase = .gather := by
    cases phase <;> first | rfl | cases hallowed
  subst hgather
  have hmove : ∀ pc : BarrierPc, pc.allowed .gather = true → pc.leaves = false → pc ≠ .idle →
      ∀ j, (update s.thread i ⟨pc, entered, returns⟩ j).Placed .gather gen := by
    intro pc hpc hleaves hbusy
    apply forall_update (P := fun _ => BarrierThread.Placed .gather gen) h.placed
    constructor
    · exact hpc
    · rw [show pc.leaves = false from hleaves]
      exact hplaced.round
    · rw [if_neg hbusy]
      exact hplaced.entered
  split
  next hlast =>
    exact h.inside hi ⟨rfl, rfl⟩ rfl rfl rfl (hmove .wait2 rfl rfl nofun) (if_pos hlast)
  next hlast =>
    exact h.inside hi ⟨rfl, rfl⟩ rfl rfl rfl (hmove .unlock1 rfl rfl nofun) (if_neg hlast)

omit [DecidableEq τ] in
theorem round_of_count2 (h : Turning phase gen s)
    (hi : s.thread i = ⟨.count2, entered, returns⟩) : returns.length = gen := by
  have hplaced := h.placed i
  rw [hi] at hplaced
  exact hplaced.round

theorem count2 (h : Turning phase gen s)
    (hi : s.thread i = ⟨.count2, entered, returns⟩) :
    Turning phase gen ⟨s.n, s.count - 1, s.mutex, s.turnstile1, s.turnstile2, update s.thread i
      ⟨if s.count - 1 = 0 then .drain1 else .unlock2 false, entered, returns⟩⟩ := by
  have hallowed := h.allowed hi
  have hplaced := h.placed i
  have hpos : 0 < s.count := h.count_pos (i := i) (by rw [hi]; rfl)
  rw [hi] at hplaced
  have hround := h.round_of_count2 hi
  have hrelease : phase = .release := by
    cases phase <;> first | rfl | cases hallowed
  subst hrelease
  have hmove : ∀ pc : BarrierPc, pc.allowed .release = true → pc ≠ .idle →
      ∀ j, (update s.thread i ⟨pc, entered, returns⟩ j).Placed .release gen := by
    intro pc hpc hbusy
    apply forall_update (P := fun _ => BarrierThread.Placed .release gen) h.placed
    constructor
    · exact hpc
    · rw [BarrierPhase.gate2, if_neg nofun, Nat.zero_mul]
      exact hround
    · rw [if_neg hbusy]
      exact hplaced.entered
  have hcount : s.count - 1 + 1 = s.count + 0 := Nat.sub_add_cancel hpos
  split
  next hlast =>
    exact h.inside hi ⟨rfl, rfl⟩ hcount rfl rfl (hmove .drain1 rfl nofun) (if_pos hlast)
  next hlast =>
    exact h.inside hi ⟨rfl, rfl⟩ hcount rfl rfl (hmove (.unlock2 false) rfl nofun)
      (if_neg hlast)

/-! ### Ends of phases -/

theorem placed_of_others (h : Turning phase gen s) {y : BarrierThread} (hi : s.thread i = y)
    (hin : y.pc.inMutex = true) (hx : x.Placed phase' gen')
    (hothers : ∀ j, (s.thread j).pc.inMutex = false → (s.thread j).Placed phase gen →
      (s.thread j).Placed phase' gen') :
    ∀ j, (update s.thread i x j).Placed phase' gen' := by
  intro j
  by_cases e : j = i
  · subst e
    rw [update_self]
    exact hx
  · rw [update_of_ne e]
    refine hothers j ?_ (h.placed j)
    by_contra hset
    apply e
    apply (h.owns hi hin).unique
    · exact eq_true_of_ne_false hset
    · rw [hi]
      exact hin

theorem placed_next (h : x.Placed phase gen) (hallowed : x.pc.allowed phase' = true)
    (hround : phase'.gate2 * x.pc.leaves.toNat + gen = gen' + phase.gate2 * x.pc.leaves.toNat) :
    x.Placed phase' gen' := by
  have hold := h.round
  refine ⟨hallowed, ?_, h.entered⟩
  omega

theorem wait2 (h : Turning phase gen s)
    (hi : s.thread i = ⟨.wait2, entered, returns⟩) (ht : s.semWait2 i .post1 = some t) :
    Turning .armed gen t := by
  obtain ⟨hopen, ht⟩ := ite_none_right_eq_some.mp ht
  cases ht
  cases h.gather_of_open hopen
  have hplaced := h.placed i
  have hdue := h.turns i (by rw [hi]; rfl)
  rw [hi] at hplaced hdue
  obtain ⟨hfull, -⟩ := ite_none_right_eq_some.mp hdue
  rw [goto, hi]
  refine h.inside hi ⟨rfl, rfl⟩ rfl rfl (Nat.sub_add_cancel hopen) ?_ rfl
  apply h.placed_of_others hi rfl
  · exact ⟨rfl, (Nat.zero_mul _).symm ▸ hplaced.round, hplaced.entered⟩
  · intro j hout hj
    have hpc := BarrierPc.eq_wait1_of_gather hj.allowed (h.counted_of_full hfull j) hout
    apply placed_next hj
    · rw [hpc]
      rfl
    · rw [hpc]
      exact Nat.add_comm 0 gen

theorem post1 (h : Turning phase gen s)
    (hi : s.thread i = ⟨.post1, entered, returns⟩) :
    phase = .armed ∧ Turning .release gen (s.semPost1 i .unlock1) := by
  have hallowed := h.allowed hi
  have harmed : phase = .armed := by
    cases phase <;> first | rfl | cases hallowed
  subst harmed
  have hplaced := h.placed i
  have hpos : 0 < s.count := h.count_pos (i := i) (by rw [hi]; rfl)
  rw [hi] at hplaced
  rw [semPost1, goto, hi]
  refine ⟨rfl, h.inside hi ⟨rfl, rfl⟩ rfl rfl rfl ?_ (if_neg (Nat.ne_of_gt hpos))⟩
  apply h.placed_of_others hi rfl
  · exact { hplaced with allowed := rfl }
  · intro j hout hj
    have hpc := BarrierPc.eq_wait1_of_armed hj.allowed hout
    apply placed_next hj
    · rw [hpc]
      rfl
    · rw [hpc]
      exact Nat.add_comm 0 gen

theorem drain1 (h : Turning phase gen s)
    (hi : s.thread i = ⟨.drain1, entered, returns⟩) (ht : s.semWait1 i .post2 = some t) :
    Turning .closing gen t := by
  obtain ⟨hopen, ht⟩ := ite_none_right_eq_some.mp ht
  cases ht
  cases h.release_of_open hopen
  have hplaced := h.placed i
  have hdue := h.turns i (by rw [hi]; rfl)
  rw [hi] at hplaced hdue
  obtain ⟨hzero, -⟩ := ite_none_right_eq_some.mp hdue
  rw [goto, hi]
  refine h.inside hi ⟨rfl, rfl⟩ rfl (Nat.sub_add_cancel hopen) rfl ?_ rfl
  apply h.placed_of_others hi rfl
  · exact { hplaced with allowed := rfl }
  · intro j hout hj
    obtain ⟨b, hpc⟩ := BarrierPc.eq_pass2_of_release hj.allowed (h.counted_of_empty hzero j) hout
    apply placed_next hj
    · rw [hpc]
      rfl
    · rw [hpc]
      exact Nat.add_comm 0 gen

theorem post2 (h : Turning phase gen s)
    (hi : s.thread i = ⟨.post2, entered, returns⟩) :
    phase = .closing ∧ Turning .gather (gen + 1) (s.semPost2 i (.unlock2 true)) := by
  have hallowed := h.allowed hi
  have hclosing : phase = .closing := by
    cases phase <;> first | rfl | cases hallowed
  subst hclosing
  have hplaced := h.placed i
  rw [hi] at hplaced
  have hnone : s.count = 0 := by
    rw [h.count]
    refine total_eq_zero.mpr fun j => ?_
    rw [BarrierThread.counted, BarrierPc.counted_of_closing (h.placed j).allowed]
    rfl
  have hnotFull : s.count ≠ s.n := by
    intro hfull
    have hsome : 0 < Fintype.card τ := Fintype.card_pos_iff.mpr ⟨i⟩
    rw [← h.size, ← hfull, hnone] at hsome
    exact absurd hsome (Nat.lt_irrefl 0)
  rw [semPost2, goto, hi]
  refine ⟨rfl, h.inside hi ⟨rfl, rfl⟩ rfl rfl rfl ?_ (if_neg hnotFull)⟩
  apply h.placed_of_others hi rfl
  · exact ⟨rfl, congrArg (· + 1) hplaced.round, hplaced.entered⟩
  · intro j hout hj
    obtain ⟨b, hpc⟩ := BarrierPc.eq_pass2_of_closing hj.allowed hout
    apply placed_next hj
    · rw [hpc]
      rfl
    · rw [hpc]
      exact Nat.add_comm 1 gen

end Turning

end Barrier

end LibuvWorks.Win
