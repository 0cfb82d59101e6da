import LibuvWorks.Lib.Transition

/-!
# Cancelling a console line read: `win/tty.c`

A console in line mode. The loop cancels a line that is being read by taking `uv_tty_output_lock`,
which is a semaphore, and by leaving it to the reading thread where that has announced its read in
`uv__read_console_status`. Counters, and what is done to the screen, are left out.
-/
open List

namespace LibuvWorks.Win

/-- `uv__read_console_status_e` -/
inductive ReadConsoleStatus where
  | notStarted : ReadConsoleStatus
  | inProgress : ReadConsoleStatus
  | trapRequested : ReadConsoleStatus
  | completed : ReadConsoleStatus
  deriving DecidableEq

/-- Where `uv_tty_line_read_thread` is: before its first exchange, before `ReadConsoleW`, in it,
before its second exchange, before `uv_sem_post`, and before `POST_COMPLETION_FOR_REQ`. -/
inductive LineThread where
  | idle : LineThread
  | spawned : LineThread
  | announced : LineThread
  | reading : LineThread
  | read (failed : Bool) : LineThread
  | owes (failed : Bool) : LineThread
  | posting (failed : Bool) : LineThread
  deriving DecidableEq

/-- Where the loop is: in `uv__cancel_read_console` before each of its steps, or elsewhere. -/
inductive CancelPhase where
  | idle : CancelPhase
  | wait : CancelPhase
  | exchange : CancelPhase
  | post : CancelPhase
  | write : CancelPhase
  deriving DecidableEq

/-- The line reads of a `uv_tty_t` and the lock. `others` are the holders of the lock elsewhere,
`completion` is a request on its way to the loop, with an error or not, and `callbacks` are the
running callbacks, where `true` is one of `uv_process_tty_read_line_req`. `acquired` and `released`
count what is done to the lock for cancellations. -/
structure TtyCancel where
  reading : Bool
  readPending : Bool
  cancellationPending : Bool
  status : ReadConsoleStatus
  lock : ℕ
  others : ℕ
  phase : CancelPhase
  thread : LineThread
  completion : Option Bool
  callbacks : List Bool
  acquired : ℕ
  released : ℕ
  deriving DecidableEq

namespace TtyCancel

variable (s : TtyCancel)

/-- `uv_tty_queue_read_line`; `buffer` says that `alloc_cb` gives one, and `spawned` is what
`QueueUserWorkItem` returns. `none` is an assertion, or a second thread. -/
def uvTtyQueueReadLine (buffer spawned : Bool) : Option TtyCancel :=
  if s.reading = false ∨ s.readPending then none
  else if buffer = false then some { s with callbacks := false :: s.callbacks }
  else if s.thread ≠ .idle ∨ s.completion ≠ none then none
  else
    some { s with
      status := .notStarted
      thread := if spawned then .spawned else .idle
      completion := if spawned then none else some true
      readPending := true }

/-- `uv_read_start` and `uv_tty_read_start` of a handle on which no key is half delivered -/
def uvTtyReadStart (buffer spawned : Bool) : Option TtyCancel :=
  if s.reading then some s
  else
    let s := { s with reading := true }
    if s.readPending then some s else s.uvTtyQueueReadLine buffer spawned

/-- `uv_read_stop` and `uv_tty_read_stop` up to `uv__cancel_read_console` -/
def uvTtyReadStop : TtyCancel :=
  if s.reading = false then s
  else
    let s := { s with reading := false }
    if s.readPending = false ∨ s.cancellationPending then s else { s with phase := .wait }

/-! ### `uv__cancel_read_console` -/

/-- `uv_sem_wait` -/
def semWait : TtyCancel :=
  { s with lock := s.lock - 1, phase := .exchange, acquired := s.acquired + 1 }

/-- The exchange of `uv__read_console_status` -/
def exchange : TtyCancel :=
  { s with
    status := .trapRequested
    phase := if s.status = .inProgress then .write else .post }

/-- `uv_sem_post`, and `uv_tty_read_stop` goes on without an error. -/
def semPost : TtyCancel :=
  { s with
    lock := s.lock + 1
    phase := .idle
    cancellationPending := true
    released := s.released + 1 }

/-- `WriteConsoleInputW`, and `uv_tty_read_stop` goes on or returns an error. -/
def writeInput (written : Bool) : TtyCancel :=
  { s with phase := .idle, cancellationPending := s.cancellationPending || written }

/-! ### `uv_tty_line_read_thread` -/

/-- The first exchange -/
def announce : TtyCancel :=
  { s with
    status := .inProgress
    thread := if s.status = .trapRequested then .posting false else .announced }

/-- The second exchange -/
def complete (failed : Bool) : TtyCancel :=
  { s with
    status := .completed
    thread := if s.status = .trapRequested then .owes failed else .posting failed }

/-- `uv_sem_post` of the thread -/
def restore (failed : Bool) : TtyCancel :=
  { s with lock := s.lock + 1, thread := .posting failed, released := s.released + 1 }

/-! ### Processing -/

/-- `uv_process_tty_read_line_req` up to `read_cb` -/
def uvProcessTtyReadLineReq (failed : Bool) : TtyCancel :=
  { s with
    readPending := false
    completion := none
    reading := if failed then false else s.reading
    cancellationPending := if failed then s.cancellationPending else false
    callbacks := true :: s.callbacks }

/-- `read_cb` returns. -/
def returned (buffer spawned : Bool) : Option TtyCancel :=
  match s.callbacks with
  | [] => none
  | processing :: callbacks =>
    let s := { s with callbacks }
    if processing ∧ s.reading ∧ s.readPending = false then s.uvTtyQueueReadLine buffer spawned
    else some s

/-! ### Events -/

/-- A step of the user, the loop, the thread, or another holder of the lock. -/
inductive Event where
  | start (buffer spawned : Bool) : Event
  | stop : Event
  | returned (buffer spawned : Bool) : Event
  | process (failed : Bool) : Event
  | semWait : Event
  | exchange : Event
  | semPost : Event
  | writeInput (written : Bool) : Event
  | announce : Event
  | readConsole : Event
  | readReturns (failed : Bool) : Event
  | complete (failed : Bool) : Event
  | restore (failed : Bool) : Event
  | post (failed : Bool) : Event
  | otherWait : Event
  | otherPost : Event
  deriving DecidableEq

/-- The events that can happen. The user calls from the callbacks and outside of them. -/
def Enabled : Event → Prop
  | .start _ _ => s.phase = .idle
  | .stop => s.phase = .idle
  | .returned _ _ => s.phase = .idle ∧ s.callbacks ≠ []
  | .process failed => s.phase = .idle ∧ s.callbacks = [] ∧ s.completion = some failed
  | .semWait => s.phase = .wait ∧ 0 < s.lock
  | .exchange => s.phase = .exchange
  | .semPost => s.phase = .post
  | .writeInput _ => s.phase = .write
  | .announce => s.thread = .spawned
  | .readConsole => s.thread = .announced
  | .readReturns _ => s.thread = .reading
  | .complete failed => s.thread = .read failed
  | .restore failed => s.thread = .owes failed
  | .post failed => s.thread = .posting failed
  | .otherWait => 0 < s.lock
  | .otherPost => 0 < s.others

instance (e : Event) : Decidable (s.Enabled e) := by
  cases e <;> unfold Enabled <;> infer_instance

def next : Event → Option TtyCancel
  | .start buffer spawned => s.uvTtyReadStart buffer spawned
  | .stop => some s.uvTtyReadStop
  | .returned buffer spawned => s.returned buffer spawned
  | .process failed => some (s.uvProcessTtyReadLineReq failed)
  | .semWait => some s.semWait
  | .exchange => some s.exchange
  | .semPost => some s.semPost
  | .writeInput written => some (s.writeInput written)
  | .announce => some s.announce
  | .readConsole => some { s with thread := .reading }
  | .readReturns failed => some { s with thread := .read failed }
  | .complete failed => some (s.complete failed)
  | .restore failed => some (s.restore failed)
  | .post failed => some { s with thread := .idle, completion := some failed }
  | .otherWait => some { s with lock := s.lock - 1, others := s.others + 1 }
  | .otherPost => some { s with lock := s.lock + 1, others := s.others - 1 }

def step (e : Event) : Option TtyCancel := if s.Enabled e then s.next e else none

def Step (s : TtyCancel) (e : Event) (t : TtyCancel) : Prop := s.step e = some t

structure Init (s : TtyCancel) : Prop where
  reading : s.reading = false
  readPending : s.readPending = false
  cancellationPending : s.cancellationPending = false
  status : s.status = .notStarted
  lock : s.lock + s.others = 1
  phase : s.phase = .idle
  thread : s.thread = .idle
  completion : s.completion = none
  callbacks : s.callbacks = []
  acquired : s.acquired = 0
  released : s.released = 0

end TtyCancel

end LibuvWorks.Win

/-!
## One party owes the release

A cancellation holds the lock from `uv_sem_wait` to the `uv_sem_post` of the loop, or to that of
the thread where the exchange of the loop has met a read that was announced.
-/
namespace LibuvWorks.Win

/-- The thread has announced its read and not yet marked it as complete. -/
def LineThread.underway : LineThread → Bool
  | .announced => true
  | .reading => true
  | .read _ => true
  | _ => false

def LineThread.posts : LineThread → Bool
  | .owes _ => true
  | _ => false

namespace TtyCancel

open Transition

variable {s t : TtyCancel} {e : Event} {buffer spawned : Bool}

/-- The loop holds the lock in `uv__cancel_read_console`. -/
def loopHolds (s : TtyCancel) : Bool := s.phase = .exchange ∨ s.phase = .post

def threadOwes (s : TtyCancel) : Bool :=
  s.thread.posts ∨ (s.thread.underway ∧ s.status = .trapRequested)

def cancelling (s : TtyCancel) : ℕ := s.loopHolds.toNat + s.threadOwes.toNat

/-- What holds of the lock, the status, and the flags of the handle. -/
structure Owned (s : TtyCancel) : Prop where
  lock : s.lock + s.others + s.cancelling = 1
  counts : s.acquired = s.released + s.cancelling
  pending : s.readPending = true ↔ s.thread ≠ .idle ∨ s.completion ≠ none
  single : s.thread = .idle ∨ s.completion = none
  cancels : s.phase ≠ .idle → s.readPending = true ∧ s.cancellationPending = false
  spawned : s.thread = .spawned → s.status = .notStarted ∨ s.status = .trapRequested
  underway : s.thread.underway = true → s.status = .inProgress ∨ s.status = .trapRequested
  trapped : s.thread = .spawned → s.status = .trapRequested →
    s.cancellationPending = true ∨ s.phase = .post
  announced : s.status = .inProgress → s.readPending = true →
    s.thread.underway = true ∨ s.cancellationPending = true ∨ s.phase = .post

theorem loopHolds_of_idle (hphase : s.phase = .idle) : s.loopHolds = false := by
  simp [loopHolds, hphase]

/-- Only a thread between its two exchanges, or before its `uv_sem_post`, owes the lock. -/
theorem threadOwes_of_away (hposts : s.thread.posts = false) (haway : s.thread.underway = false) :
    s.threadOwes = false := by
  simp [threadOwes, hposts, haway]

theorem threadOwes_of_untrapped (hposts : s.thread.posts = false)
    (hstatus : s.status ≠ .trapRequested) : s.threadOwes = false := by
  simp [threadOwes, hposts, hstatus]

theorem threadOwes_of_trapped (haway : s.thread.underway = true)
    (hstatus : s.status = .trapRequested) : s.threadOwes = true := by
  simp [threadOwes, haway, hstatus]

namespace Owned

variable {failed : Bool}

theorem at_rest (h : Owned s) (hpending : s.readPending = false) :
    s.thread = .idle ∧ s.completion = none := by
  have hiff := h.pending
  rw [hpending, iff_comm, iff_false_right Bool.false_ne_true, not_or, not_not, not_not] at hiff
  exact hiff

theorem exclusive (h : Owned s) (hloop : s.loopHolds = true) : s.threadOwes = false := by
  have hlock := h.lock
  by_contra hset
  rw [cancelling, hloop, eq_true_of_ne_false hset] at hlock
  change s.lock + s.others + 2 = 1 at hlock
  omega

/-! ### The user and the loop -/

theorem uvTtyQueueReadLine (h : Owned s) (hphase : s.phase = .idle) (hreading : s.reading = true)
    (hpending : s.readPending = false) :
    ∃ t, s.uvTtyQueueReadLine buffer spawned = some t ∧ Owned t := by
  obtain ⟨hthread, hnone⟩ := h.at_rest hpending
  have hloop := loopHolds_of_idle hphase
  have hcancelling : s.cancelling = 0 := by
    rw [cancelling, hloop, threadOwes_of_away (by rw [hthread]; rfl) (by rw [hthread]; rfl)]
    rfl
  have hlock := h.lock
  have hcounts := h.counts
  rw [hcancelling] at hlock hcounts
  unfold TtyCancel.uvTtyQueueReadLine
  rw [if_neg (by simp [hreading, hpending])]
  by_cases hbuffer : buffer = false
  · rw [if_pos hbuffer]
    exact ⟨_, rfl, { h with }⟩
  · rw [if_neg hbuffer, if_neg (by simp [hthread, hnone])]
    refine ⟨_, rfl, ?_⟩
    have hafter : cancelling { s with
        status := .notStarted
        thread := if spawned then .spawned else .idle
        completion := if spawned then none else some true
        readPending := true } = 0 := by
      unfold cancelling
      rw [threadOwes_of_away (by cases spawned <;> rfl) (by cases spawned <;> rfl)]
      exact congrArg (Bool.toNat · + 0) hloop
    constructor
    · rw [hafter]
      exact hlock
    · rw [hafter]
      exact hcounts
    · cases spawned <;> simp
    · cases spawned <;> simp
    · exact fun habs => absurd hphase habs
    · exact fun _ => .inl rfl
    · cases spawned <;> exact nofun
    · exact nofun
    · exact nofun

theorem uvTtyReadStart (h : Owned s) (hphase : s.phase = .idle) :
    ∃ t, s.uvTtyReadStart buffer spawned = some t ∧ Owned t := by
  unfold TtyCancel.uvTtyReadStart
  have hstarted : Owned { s with reading := true } := { h with }
  dsimp only
  split_ifs with hreading hpending
  · exact ⟨s, rfl, h⟩
  · exact ⟨_, rfl, hstarted⟩
  · exact hstarted.uvTtyQueueReadLine hphase rfl (eq_false_of_ne_true hpending)

theorem uvTtyReadStop (h : Owned s) (hphase : s.phase = .idle) : Owned s.uvTtyReadStop := by
  unfold TtyCancel.uvTtyReadStop
  dsimp only
  split_ifs with hreading hskip
  · exact h
  · exact { h with }
  · obtain ⟨hpending, hcancellation⟩ := not_or.mp hskip
    have hsame : cancelling { s with reading := false, phase := .wait } = s.cancelling := by
      unfold cancelling
      rw [loopHolds_of_idle hphase]
      rfl
    exact { h with
      lock := by
        rw [hsame]
        exact h.lock
      counts := by
        rw [hsame]
        exact h.counts
      cancels := fun _ => ⟨eq_true_of_ne_false hpending, eq_false_of_ne_true hcancellation⟩
      trapped := fun hthread hstatus =>
        .inl ((h.trapped hthread hstatus).resolve_right (by simp [hphase]))
      announced := fun hstatus hset =>
        (h.announced hstatus hset).imp_right fun hor => .inl (hor.resolve_right (by simp [hphase])) }

theorem uvProcessTtyReadLineReq (h : Owned s) (hphase : s.phase = .idle)
    (hcompletion : s.completion = some failed) : Owned (s.uvProcessTtyReadLineReq failed) := by
  have hthread : s.thread = .idle := h.single.resolve_right (by simp [hcompletion])
  exact { h with
    pending := by simp [TtyCancel.uvProcessTtyReadLineReq, hthread]
    single := .inr rfl
    cancels := fun habs => absurd hphase habs
    trapped := fun hspawned => by cases hthread.symm.trans hspawned
    announced := fun _ => nofun }

theorem returned (h : Owned s) (hphase : s.phase = .idle) (hcallbacks : s.callbacks ≠ []) :
    ∃ t, s.returned buffer spawned = some t ∧ Owned t := by
  unfold TtyCancel.returned
  cases hlist : s.callbacks with
  | nil => exact absurd hlist hcallbacks
  | cons processing callbacks =>
    have hpopped : Owned { s with callbacks } := { h with }
    dsimp only
    split_ifs with hqueue
    · exact hpopped.uvTtyQueueReadLine hphase hqueue.2.1 hqueue.2.2
    · exact ⟨_, rfl, hpopped⟩

/-! ### The cancellation -/

theorem semWait (h : Owned s) (hphase : s.phase = .wait) (hlock : 0 < s.lock) :
    Owned s.semWait := by
  have hfree : s.loopHolds = false := by simp [loopHolds, hphase]
  have hmore : s.semWait.cancelling = s.cancelling + 1 := by
    unfold cancelling
    rw [hfree, Bool.toNat_false, Nat.zero_add, Nat.add_comm]
    rfl
  have hsum := h.lock
  have hcounts := h.counts
  have hne : s.phase ≠ .post := by simp [hphase]
  exact { h with
    lock := by
      rw [hmore]
      change s.lock - 1 + s.others + (s.cancelling + 1) = 1
      omega
    counts := by
      rw [hmore]
      change s.acquired + 1 = s.released + (s.cancelling + 1)
      omega
    cancels := fun _ => h.cancels (by simp [hphase])
    trapped := fun hthread hstatus => .inl ((h.trapped hthread hstatus).resolve_right hne)
    announced := fun hstatus hset =>
      (h.announced hstatus hset).imp_right fun hor => .inl (hor.resolve_right hne) }

/-- The exchange leaves the lock to the loop, or to a thread that has announced its read. -/
theorem cancelling_exchange (h : Owned s) (hphase : s.phase = .exchange) :
    s.exchange.cancelling = s.cancelling := by
  have hloop : s.loopHolds = true := by simp [loopHolds, hphase]
  have howes := h.exclusive hloop
  obtain ⟨hpending, hcancellation⟩ := h.cancels (by simp [hphase])
  unfold cancelling
  rw [hloop, howes]
  by_cases hstatus : s.status = .inProgress
  · have hunderway : s.thread.underway = true := by
      rcases h.announced hstatus hpending with hunderway | hset | hpost
      · exact hunderway
      · cases hcancellation.symm.trans hset
      · cases hphase.symm.trans hpost
    have hgiven : s.exchange.threadOwes = true := threadOwes_of_trapped hunderway rfl
    have hleft : s.exchange.loopHolds = false := by
      simp [loopHolds, TtyCancel.exchange, hstatus]
    rw [hgiven, hleft]
    rfl
  · have hkept : s.exchange.loopHolds = true := by
      simp [loopHolds, TtyCancel.exchange, hstatus]
    have haway : s.thread.underway = false := by
      by_contra hset
      have hunderway := eq_true_of_ne_false hset
      have htrap := (h.underway hunderway).resolve_left hstatus
      cases howes.symm.trans (threadOwes_of_trapped hunderway htrap)
    have hposts : s.thread.posts = false := by
      by_contra hset
      simp [threadOwes, eq_true_of_ne_false hset] at howes
    have hnot : s.exchange.threadOwes = false := threadOwes_of_away hposts haway
    rw [hkept, hnot]

theorem exchange (h : Owned s) (hphase : s.phase = .exchange) : Owned s.exchange := by
  have hsame := h.cancelling_exchange hphase
  obtain ⟨hpending, hcancellation⟩ := h.cancels (by simp [hphase])
  exact {
    lock := by
      rw [hsame]
      exact h.lock
    counts := by
      rw [hsame]
      exact h.counts
    pending := h.pending
    single := h.single
    cancels := fun _ => ⟨hpending, hcancellation⟩
    spawned := fun _ => .inr rfl
    underway := fun _ => .inr rfl
    trapped := by
      intro hthread _
      refine .inr (if_neg fun hstatus => ?_)
      rcases h.spawned hthread with hnot | htrap
      · cases hnot.symm.trans hstatus
      · cases htrap.symm.trans hstatus
    announced := nofun }

theorem semPost (h : Owned s) (hphase : s.phase = .post) : Owned s.semPost := by
  have hless : s.cancelling = s.semPost.cancelling + 1 := by
    unfold cancelling
    rw [show s.loopHolds = true by simp [loopHolds, hphase], Bool.toNat_true, Nat.add_comm]
    exact congrArg (· + 1) (Nat.zero_add _).symm
  have hsum := h.lock
  have hcounts := h.counts
  exact { h with
    lock := by
      change s.lock + 1 + s.others + s.semPost.cancelling = 1
      omega
    counts := by
      change s.acquired = s.released + 1 + s.semPost.cancelling
      omega
    cancels := fun habs => absurd rfl habs
    trapped := fun _ _ => .inl rfl
    announced := fun _ _ => .inr (.inl rfl) }

theorem writeInput {written : Bool} (h : Owned s) (hphase : s.phase = .write) :
    Owned (s.writeInput written) := by
  have hne : s.phase ≠ .post := by simp [hphase]
  have hsame : (s.writeInput written).cancelling = s.cancelling := by
    unfold cancelling
    rw [show s.loopHolds = false by simp [loopHolds, hphase]]
    rfl
  have hkept : s.cancellationPending = true → (s.cancellationPending || written) = true :=
    fun hset => by rw [hset, Bool.true_or]
  exact { h with
    lock := by
      rw [hsame]
      exact h.lock
    counts := by
      rw [hsame]
      exact h.counts
    cancels := fun habs => absurd rfl habs
    trapped := fun hthread hstatus =>
      .inl (hkept ((h.trapped hthread hstatus).resolve_right hne))
    announced := fun hstatus hset =>
      (h.announced hstatus hset).imp_right fun hor => .inl (hkept (hor.resolve_right hne)) }

/-! ### The thread -/

theorem threadGoes (h : Owned s) (thread : LineThread) (status : ReadConsoleStatus)
    (hidle : s.thread ≠ .idle) (hnew : thread ≠ .idle)
    (howes : threadOwes { s with thread, status } = s.threadOwes)
    (hspawned : thread ≠ .spawned)
    (hunderway : thread.underway = true → status = .inProgress ∨ status = .trapRequested)
    (hannounced : status = .inProgress →
      thread.underway = true ∨ s.cancellationPending = true ∨ s.phase = .post) :
    Owned { s with thread, status } := by
  have hsame : cancelling { s with thread, status } = s.cancelling :=
    congrArg (fun owes : Bool => s.loopHolds.toNat + owes.toNat) howes
  exact {
    lock := by
      rw [hsame]
      exact h.lock
    counts := by
      rw [hsame]
      exact h.counts
    pending := iff_of_true (h.pending.mpr (.inl hidle)) (.inl hnew)
    single := .inr (h.single.resolve_left hidle)
    cancels := h.cancels
    spawned := fun habs => absurd habs hspawned
    underway := hunderway
    trapped := fun habs => absurd habs hspawned
    announced := fun hstatus _ => hannounced hstatus }

theorem announce (h : Owned s) (hthread : s.thread = .spawned) : Owned s.announce := by
  have howes : s.threadOwes = false := by
    rw [threadOwes_of_away (by rw [hthread]; rfl) (by rw [hthread]; rfl)]
  have hidle : s.thread ≠ .idle := by simp [hthread]
  unfold TtyCancel.announce
  by_cases hstatus : s.status = .trapRequested
  · rw [if_pos hstatus]
    apply h.threadGoes (.posting false) .inProgress hidle nofun _ nofun nofun
    · exact fun _ => .inr (h.trapped hthread hstatus)
    · rw [howes]
      rfl
  · rw [if_neg hstatus]
    apply h.threadGoes .announced .inProgress hidle nofun _ nofun
    · exact fun _ => .inl rfl
    · exact fun _ => .inl rfl
    · rw [howes]
      rfl

theorem proceed {thread : LineThread} (h : Owned s) (hold : s.thread.underway = true)
    (hposts : s.thread.posts = false) (hnew : thread.underway = true)
    (hnewPosts : thread.posts = false) : Owned { s with thread } := by
  apply h.threadGoes
  · intro habs
    rw [habs] at hold
    cases hold
  · intro habs
    rw [habs] at hnew
    cases hnew
  · simp [threadOwes, hold, hposts, hnew, hnewPosts]
  · intro habs
    rw [habs] at hnew
    cases hnew
  · exact fun _ => h.underway hold
  · exact fun _ => .inl hnew

theorem complete (h : Owned s) (hthread : s.thread = .read failed) : Owned (s.complete failed) := by
  have hidle : s.thread ≠ .idle := by simp [hthread]
  have hunderway : s.thread.underway = true := by rw [hthread]; rfl
  unfold TtyCancel.complete
  by_cases hstatus : s.status = .trapRequested
  · rw [if_pos hstatus]
    apply h.threadGoes (.owes failed) .completed hidle nofun _ nofun nofun nofun
    rw [threadOwes_of_trapped hunderway hstatus]
    rfl
  · rw [if_neg hstatus]
    apply h.threadGoes (.posting failed) .completed hidle nofun _ nofun nofun nofun
    rw [threadOwes_of_untrapped (by rw [hthread]; rfl) hstatus]
    rfl

theorem restore (h : Owned s) (hthread : s.thread = .owes failed) : Owned (s.restore failed) := by
  have howes : s.threadOwes = true := by
    unfold threadOwes
    rw [hthread]
    rfl
  have hless : s.cancelling = (s.restore failed).cancelling + 1 := by
    unfold cancelling
    rw [howes]
    rfl
  have hsum := h.lock
  have hcounts := h.counts
  exact {
    lock := by
      change s.lock + 1 + s.others + (s.restore failed).cancelling = 1
      omega
    counts := by
      change s.acquired = s.released + 1 + (s.restore failed).cancelling
      omega
    pending := iff_of_true (h.pending.mpr (.inl (by simp [hthread]))) (.inl nofun)
    single := .inr (h.single.resolve_left (by simp [hthread]))
    cancels := h.cancels
    spawned := nofun
    underway := nofun
    trapped := nofun
    announced := fun hstatus hset => by
      have hor := h.announced hstatus hset
      rw [hthread] at hor
      exact .inr (hor.resolve_left nofun) }

theorem post (h : Owned s) (hthread : s.thread = .posting failed) :
    Owned { s with thread := .idle, completion := some failed } := by
  have howes : s.threadOwes = false :=
    threadOwes_of_away (by rw [hthread]; rfl) (by rw [hthread]; rfl)
  have hsame : cancelling { s with thread := .idle, completion := some failed } =
      s.cancelling := by
    unfold cancelling
    rw [howes]
    rfl
  exact {
    lock := by
      rw [hsame]
      exact h.lock
    counts := by
      rw [hsame]
      exact h.counts
    pending := iff_of_true (h.pending.mpr (.inl (by simp [hthread]))) (.inr nofun)
    single := .inl rfl
    cancels := h.cancels
    spawned := nofun
    underway := nofun
    trapped := nofun
    announced := fun hstatus hset => by
      have hor := h.announced hstatus hset
      rw [hthread] at hor
      exact .inr (hor.resolve_left nofun) }

theorem setOthers {lock others : ℕ} (h : Owned s) (hsum : lock + others = s.lock + s.others) :
    Owned { s with lock, others } := { h with
  lock := by
    change lock + others + s.cancelling = 1
    rw [hsum]
    exact h.lock }

/-! ### Every run -/

theorem next (h : Owned s) (henabled : s.Enabled e) : ∃ t, s.next e = some t ∧ Owned t := by
  cases e with
  | start buffer spawned => exact h.uvTtyReadStart henabled
  | stop => exact ⟨_, rfl, h.uvTtyReadStop henabled⟩
  | returned buffer spawned => exact h.returned henabled.1 henabled.2
  | process failed => exact ⟨_, rfl, h.uvProcessTtyReadLineReq henabled.1 henabled.2.2⟩
  | semWait => exact ⟨_, rfl, h.semWait henabled.1 henabled.2⟩
  | exchange => exact ⟨_, rfl, h.exchange henabled⟩
  | semPost => exact ⟨_, rfl, h.semPost henabled⟩
  | writeInput written => exact ⟨_, rfl, h.writeInput henabled⟩
  | announce => exact ⟨_, rfl, h.announce henabled⟩
  | readConsole =>
    have hthread : s.thread = .announced := henabled
    refine ⟨_, rfl, h.proceed ?_ ?_ rfl rfl⟩ <;> rw [hthread] <;> rfl
  | readReturns failed =>
    have hthread : s.thread = .reading := henabled
    refine ⟨_, rfl, h.proceed ?_ ?_ rfl rfl⟩ <;> rw [hthread] <;> rfl
  | complete failed => exact ⟨_, rfl, h.complete henabled⟩
  | restore failed => exact ⟨_, rfl, h.restore henabled⟩
  | post failed => exact ⟨_, rfl, h.post henabled⟩
  | otherWait =>
    have hlock : 0 < s.lock := henabled
    refine ⟨_, rfl, h.setOthers ?_⟩
    omega
  | otherPost =>
    have hothers : 0 < s.others := henabled
    refine ⟨_, rfl, h.setOthers ?_⟩
    omega

theorem init (h : Init s) : Owned s := by
  have hcancelling : s.cancelling = 0 := by
    rw [cancelling, loopHolds_of_idle h.phase,
      threadOwes_of_away (by rw [h.thread]; rfl) (by rw [h.thread]; rfl)]
    rfl
  constructor
  · rw [hcancelling]
    exact h.lock
  · rw [hcancelling, h.acquired, h.released]
  · simp [h.readPending, h.thread, h.completion]
  · exact .inl h.thread
  · exact fun habs => absurd h.phase habs
  · intro habs
    cases h.thread.symm.trans habs
  · rw [h.thread]
    exact nofun
  · intro habs
    cases h.thread.symm.trans habs
  · intro _ habs
    cases h.readPending.symm.trans habs

theorem of_reachable (h : Reachable Init Step s) : Owned s := by
  apply h.invariant_of_next
  · exact fun s hs => init hs
  · exact fun s e hs henabled => next hs henabled

end Owned

/-! ### The trap -/

def Trapped (s : TtyCancel) : Prop :=
  (s.thread = .spawned ∧ s.status = .trapRequested) ∨ s.thread = .posting false

theorem trapped_of_same (h : Trapped s) (hthread : t.thread = s.thread)
    (hstatus : t.status = s.status) : Trapped t := by
  unfold Trapped
  rw [hthread, hstatus]
  exact h

theorem Trapped.ne_idle (h : Trapped s) : s.thread ≠ .idle := by
  rcases h with ⟨hthread, -⟩ | hthread
  · rw [hthread]
    exact nofun
  · rw [hthread]
    exact nofun

theorem uvTtyQueueReadLine_same (ht : s.uvTtyQueueReadLine buffer spawned = some t)
    (hidle : s.thread ≠ .idle) :
    t.thread = s.thread ∧ t.status = s.status := by
  unfold uvTtyQueueReadLine at ht
  rw [Option.ite_none_left_eq_some] at ht
  obtain ⟨-, ht⟩ := ht
  split_ifs at ht with hbuffer hbusy
  · cases ht
    exact ⟨rfl, rfl⟩
  · exact absurd (.inl hidle) hbusy
  · exact absurd (.inl hidle) hbusy

/-- Until it has posted its completion, a thread that has been trapped stays so. -/
theorem Trapped.step (h : Trapped s) (hst : Step s e t) (hpost : ∀ failed, e ≠ .post failed) :
    Trapped t ∧ e ≠ .readConsole := by
  obtain ⟨henabled, ht⟩ := Option.ite_none_right_eq_some.mp hst
  have hidle := h.ne_idle
  have haway : s.thread ≠ .announced ∧ s.thread ≠ .reading ∧
      (∀ failed, s.thread ≠ .read failed) ∧ ∀ failed, s.thread ≠ .owes failed := by
    rcases h with ⟨hthread, -⟩ | hthread <;> simp [hthread]
  cases e with
  | start buffer spawned =>
    change s.uvTtyReadStart buffer spawned = some t at ht
    unfold uvTtyReadStart at ht
    dsimp only at ht
    split_ifs at ht
    · cases ht
      exact ⟨h, nofun⟩
    · cases ht
      exact ⟨h, nofun⟩
    · obtain ⟨hthread, hstatus⟩ := uvTtyQueueReadLine_same ht hidle
      exact ⟨trapped_of_same h hthread hstatus, nofun⟩
  | stop =>
    cases ht
    unfold uvTtyReadStop
    dsimp only
    split_ifs
    · exact ⟨h, nofun⟩
    · exact ⟨h, nofun⟩
    · exact ⟨h, nofun⟩
  | returned buffer spawned =>
    change s.returned buffer spawned = some t at ht
    unfold returned at ht
    split at ht
    · cases ht
    · dsimp only at ht
      split_ifs at ht
      · obtain ⟨hthread, hstatus⟩ := uvTtyQueueReadLine_same ht hidle
        exact ⟨trapped_of_same h hthread hstatus, nofun⟩
      · cases ht
        exact ⟨h, nofun⟩
  | exchange =>
    cases ht
    exact ⟨h.imp_left fun hspawned => ⟨hspawned.1, rfl⟩, nofun⟩
  | announce =>
    cases ht
    have hstatus : s.status = .trapRequested := by
      rcases h with hspawned | hposting
      · exact hspawned.2
      · cases hposting.symm.trans henabled
    exact ⟨.inr (if_pos hstatus), nofun⟩
  | readConsole => exact absurd henabled haway.1
  | readReturns failed => exact absurd henabled haway.2.1
  | complete failed => exact absurd henabled (haway.2.2.1 failed)
  | restore failed => exact absurd henabled (haway.2.2.2 failed)
  | post failed => exact absurd rfl (hpost failed)
  | process failed | semWait | semPost | writeInput written | otherWait | otherPost =>
    cases ht
    exact ⟨h, nofun⟩

theorem Trapped.run {es : List Event} (hrun : Run Step s es t) (h : Trapped s)
    (hpost : ∀ failed, .post failed ∉ es) : .readConsole ∉ es := by
  induction hrun with
  | nil s => exact not_mem_nil
  | cons hst _ ih =>
    obtain ⟨htrapped, hne⟩ :=
      h.step hst fun failed heq => hpost failed (heq ▸ mem_cons_self)
    rw [mem_cons, not_or]
    exact ⟨hne.symm, ih htrapped fun failed hmem => hpost failed (mem_cons_of_mem _ hmem)⟩

/-- The lock that a cancellation takes is released once, by the loop or by the thread; one
cancellation at most holds it, and its value is at most 1. A thread that has not exchanged the
status when a cancellation does so posts its completion without a call of `ReadConsoleW`. -/
theorem ttyCancels_owned (h : Reachable Init Step s) :
    s.lock ≤ 1 ∧ s.cancelling ≤ 1 ∧ s.acquired = s.released + s.cancelling ∧
    (s.loopHolds = false → s.thread = .idle → s.acquired = s.released) ∧
    (∀ e, s.Enabled e → ∃ t, s.next e = some t) ∧
    ∀ t u es, s.thread = .spawned → Step s .exchange t → Run Step t es u →
      (∀ failed, .post failed ∉ es) → .readConsole ∉ es := by
  have hs := Owned.of_reachable h
  have hlock := hs.lock
  refine ⟨by omega, by omega, hs.counts, fun hloop hthread => ?_, fun e henabled => ?_, ?_⟩
  · have howes : s.threadOwes = false :=
      threadOwes_of_away (by rw [hthread]; rfl) (by rw [hthread]; rfl)
    have hcounts := hs.counts
    rw [cancelling, hloop, howes] at hcounts
    exact hcounts
  · obtain ⟨t, ht, -⟩ := hs.next henabled
    exact ⟨t, ht⟩
  · intro t u es hthread hst hrun
    obtain ⟨-, ht⟩ := Option.ite_none_right_eq_some.mp hst
    cases ht
    exact Trapped.run hrun (.inl ⟨hthread, rfl⟩)

/-- A console whose lock is free. -/
def fresh : TtyCancel where
  reading := false
  readPending := false
  cancellationPending := false
  status := .notStarted
  lock := 1
  others := 0
  phase := .idle
  thread := .idle
  completion := none
  callbacks := []
  acquired := 0
  released := 0

theorem fresh_init : Init fresh := ⟨rfl, rfl, rfl, rfl, rfl, rfl, rfl, rfl, rfl, rfl, rfl⟩

/-- Reading is stopped while the thread is in `ReadConsoleW`, and the key cannot be written. -/
def unwrittenRun : Option TtyCancel :=
  [Event.start true true, .announce, .readConsole, .stop, .semWait, .exchange, .writeInput false,
    .start true true, .stop, .readReturns false, .complete false, .restore false, .semWait,
    .exchange].foldlM step fresh

theorem unwrittenRun_isSome : unwrittenRun.isSome = true := by
  rfl

theorem ttyCancels_owned_unwritten : (unwrittenRun.get unwrittenRun_isSome).cancelling ≤ 1 := by
  have hrun : Reachable Init Step (unwrittenRun.get unwrittenRun_isSome) :=
    .of_foldlM (.init fresh_init) (Option.some_get unwrittenRun_isSome).symm
  exact (ttyCancels_owned hrun).2.1

/-- The thread has announced its read and not yet called `ReadConsoleW`. -/
def announcedRun : Option TtyCancel := [Event.start true true, .announce].foldlM step fresh

theorem announcedRun_isSome : announcedRun.isSome = true := by
  rfl

/-- Reading is stopped, and then the thread calls `ReadConsoleW`. -/
def lateRun : Option TtyCancel :=
  announcedRun >>=
    [Event.stop, .semWait, .exchange, .writeInput true, .readConsole].foldlM step

theorem lateRun_isSome : lateRun.isSome = true := by
  rfl

/-- A stop before the thread calls `ReadConsoleW` does not always keep it from the call. -/
theorem read_after_stop : ¬∀ s es t, Reachable Init Step s →
    s.thread = .spawned ∨ s.thread = .announced → s.readPending = true →
    Run Step s (.stop :: es) t → (∀ failed, .post failed ∉ es) → .readConsole ∉ es := by
  intro hall
  have hreach : Reachable Init Step (announcedRun.get announcedRun_isSome) :=
    .of_foldlM (.init fresh_init) (Option.some_get announcedRun_isSome).symm
  have hlate : Run Step (announcedRun.get announcedRun_isSome)
      [.stop, .semWait, .exchange, .writeInput true, .readConsole] (lateRun.get lateRun_isSome) :=
    .of_foldlM (by decide)
  have hnone := hall _ _ _ hreach (by decide) (by decide) hlate (by simp)
  exact hnone (by decide)

end TtyCancel

end LibuvWorks.Win
