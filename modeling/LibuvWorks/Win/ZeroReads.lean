import LibuvWorks.Win.ZeroPause

/-!
# The reads of a pipe that can be paused

Between `uv__pipe_pause_read` and `uv__pipe_unpause_read` no `ReadFile` is in progress.
`uv_pipe_endgame` breaks this where it runs for a shutdown: it destroys the mutex that the thread
still takes, and after it a pause does not wait for the thread.
-/
namespace LibuvWorks.Win

open List

def PipeCallback.running : PipeCallback → ℕ
  | .none => 0
  | _ => 1

namespace ZeroRead

open Transition

variable {s t : ZeroRead} {e : Event} {call : PauseFor} {n : ℕ}

/-- A pause begins where it can cancel the `ReadFile`, and the mutex goes with the pipe, or where
the thread is not between its two uses of it. -/
def Careful (s : ZeroRead) : Event → Prop
  | .readStop => s.reading = true → s.Pausable
  | .getname => s.handleOpen = true → s.Pausable
  | .close => s.Pausable
  | .endgame _ => s.cancelable = true →
      s.closing = true ∧ s.reqsPending = 0 ∨ s.thread.mayLock = false
  | _ => True

instance (s : ZeroRead) (e : Event) : Decidable (Careful s e) := by
  induction e using Event.casesOn <;> dsimp only [Careful] <;> infer_instance

/-! ### What the requests of the pipe count -/

/-- The flags and the counts agree; `n` callbacks run. -/
structure Counted (s : ZeroRead) (n : ℕ) : Prop where
  posts : s.completions.length + s.thread.alive.toNat = s.readPending.toNat
  reqs : s.reqsPending =
    s.readPending.toNat + s.writeReqsPending + s.shutdownReq.toNat + s.shutdowns + n
  closes : s.loop = .pausing .close ∨ s.loop = .paused .close →
    s.closing = false ∧ s.reading = false
  readable : s.reading = true → s.readable = true
  handleOpen : s.readable = true → s.handleOpen = true
  writable : s.writable = true → s.shutdownReq = false
  closing : s.closing = true → s.readable = false ∧ s.writable = false
  closed : s.closed = true → s.closing = true ∧ s.reqsPending = 0 ∧ s.endgameQueued = false

namespace Counted

theorem reqsPending_pos (h : Counted s (n + 1)) : 0 < s.reqsPending := by
  rw [h.reqs]
  omega

theorem not_closed (h : Counted s n) (hreqs : 0 < s.reqsPending) : s.closed = false := by
  by_contra hclosed
  rw [(h.closed (eq_true_of_ne_false hclosed)).2.1] at hreqs
  exact Nat.lt_irrefl 0 hreqs

theorem wantEndgame (h : Counted s n) (hopen : s.closed = false) : Counted s.wantEndgame n :=
  { h with closed := fun hclosed => by cases hopen.symm.trans hclosed }

theorem read_pending {success : Bool} {completions : List Bool} (h : Counted s n)
    (hposted : s.completions = success :: completions) :
    s.readPending = true ∧ s.thread = .idle ∧ completions = [] := by
  have hposts := h.posts
  rw [hposted, length_cons] at hposts
  have hle : s.readPending.toNat ≤ 1 := Bool.toNat_le _
  have hpending : s.readPending.toNat = 1 := by omega
  have halive : s.thread.alive.toNat = 0 := by omega
  refine ⟨by simpa using hpending, ?_, length_eq_zero_iff.mp (by omega)⟩
  cases hthread : s.thread with
  | idle => rfl
  | begins | locking | reading _ | returned _ _ | relocking _ | finishing _ _ | unregistered _
    | posting _ =>
    rw [hthread] at halive
    cases halive

theorem thread_idle (h : Counted s n) (hpending : s.readPending = false) :
    s.thread = .idle ∧ s.completions = [] := by
  have hposts := h.posts
  rw [hpending] at hposts
  have halive : s.thread.alive.toNat = 0 := by
    change _ = 0 at hposts
    omega
  have hlength : s.completions.length = 0 := by
    change _ = 0 at hposts
    omega
  refine ⟨?_, length_eq_zero_iff.mp hlength⟩
  cases hthread : s.thread with
  | idle => rfl
  | begins | locking | reading _ | returned _ _ | relocking _ | finishing _ _ | unregistered _
    | posting _ =>
    rw [hthread] at halive
    cases halive

end Counted

/-- The thread and the pauses are coordinated, and the requests are counted. -/
structure Inv (s : ZeroRead) : Prop where
  coordinated : Coordinated s
  counted : Counted s s.callback.running

theorem Counted.decreasePending (h : Counted s 1) (hs : Coordinated s) :
    ∃ t, s.decreasePending = some t ∧ Inv t := by
  have hpos := h.reqsPending_pos
  have hopen := h.not_closed hpos
  have hreqs : s.reqsPending - 1 =
      s.readPending.toNat + s.writeReqsPending + s.shutdownReq.toNat + s.shutdowns := by
    rw [h.reqs]
    rfl
  have hclosed : s.closed = true → False := by simp [hopen]
  rw [ZeroRead.decreasePending, if_neg (Nat.ne_of_gt hpos)]
  refine ⟨_, rfl, ?_⟩
  split_ifs with hend
  · exact ⟨{ hs with }, { h with reqs := hreqs, closed := fun hc => (hclosed hc).elim }⟩
  · exact ⟨{ hs with }, { h with reqs := hreqs, closed := fun hc => (hclosed hc).elim }⟩

/-! ### What the loop does -/

theorem callback_pauseRead (s : ZeroRead) (call : PauseFor) :
    (s.uvPipePauseRead call).callback = s.callback := by
  rw [uvPipePauseRead]
  split_ifs <;> rfl

theorem Counted.pauseRead (h : Counted s n)
    (hclose : call = .close → s.closing = false ∧ s.reading = false) :
    Counted (s.uvPipePauseRead call) n := by
  rw [uvPipePauseRead]
  split_ifs with hcancelable
  · refine { h with closes := fun hloop => hclose ?_ }
    rcases hloop with hloop | hloop
    · exact PauseLoop.pausing.inj hloop
    · cases hloop
  · refine { h with closes := fun hloop => hclose ?_ }
    rcases hloop with hloop | hloop
    · cases hloop
    · exact PauseLoop.paused.inj hloop

theorem Counted.queueRead (h : Counted s n) (hs : Coordinated s) (hloop : s.loop = .free)
    (hreading : s.reading = true) (hpending : s.readPending = false) (queued : Bool) :
    ∃ t, s.uvPipeQueueRead queued = some t ∧ Coordinated t ∧ Counted t n ∧
      t.callback = s.callback := by
  obtain ⟨hidle, hnil⟩ := h.thread_idle hpending
  have hreadable := h.readable hreading
  have hreqs : s.reqsPending + 1 =
      true.toNat + s.writeReqsPending + s.shutdownReq.toNat + s.shutdowns + n := by
    rw [h.reqs, hpending]
    change _ = 1 + _ + _ + _ + _
    change 0 + _ + _ + _ + _ + 1 = _
    omega
  have hclosed : s.closed = true → False := by
    intro hclosed
    rw [(h.closing (h.closed hclosed).1).1] at hreadable
    cases hreadable
  rw [uvPipeQueueRead, if_neg (by simp [hreading, hpending, h.handleOpen hreadable, hidle])]
  cases queued with
  | true =>
    refine ⟨_, rfl, { hs.begins hidle hloop with }, { h with
      posts := ?_
      reqs := hreqs
      closed := fun hc => (hclosed hc).elim }, rfl⟩
    change s.completions.length + 1 = 1
    rw [hnil]
    rfl
  | false =>
    refine ⟨_, rfl, { hs with }, { h with
      posts := ?_
      reqs := hreqs
      closed := fun hc => (hclosed hc).elim }, rfl⟩
    change (s.completions ++ [false]).length + s.thread.alive.toNat = 1
    rw [hnil, hidle]
    rfl

namespace Inv

theorem pauseRead (h : Inv s) (hloop : s.loop = .free) (hpausable : s.Pausable)
    (hclose : call = .close → s.closing = false ∧ s.reading = false) :
    Inv (s.uvPipePauseRead call) := by
  constructor
  · exact h.coordinated.pauseRead hloop hpausable
  · rw [callback_pauseRead]
    exact h.counted.pauseRead hclose

theorem stopped (h : Inv s) : Inv { s with reading := false } where
  coordinated := { h.coordinated with }
  counted := { h.counted with
    closes := fun hloop => ⟨(h.counted.closes hloop).1, rfl⟩
    readable := nofun }

theorem uvReadStop (h : Inv s) (hloop : s.loop = .free)
    (hpausable : s.reading = true → s.Pausable) : Inv s.uvReadStop := by
  rw [ZeroRead.uvReadStop]
  split_ifs with hreading
  · exact h
  · exact h.stopped.pauseRead hloop (hpausable (eq_true_of_ne_false hreading)) nofun

theorem uvPipeGetname (h : Inv s) (hloop : s.loop = .free)
    (hpausable : s.handleOpen = true → s.Pausable) : Inv s.uvPipeGetname := by
  rw [ZeroRead.uvPipeGetname]
  split_ifs with hopen
  · exact h
  · exact h.pauseRead hloop (hpausable (eq_true_of_ne_false hopen)) nofun

theorem uvPipeClose (h : Inv s) (hloop : s.loop = .free) (hclosing : s.closing = false)
    (hpausable : s.Pausable) : ∃ t, s.uvPipeClose = some t ∧ Inv t := by
  rw [ZeroRead.uvPipeClose, if_neg (by simp [hclosing])]
  exact ⟨_, rfl, h.stopped.pauseRead hloop hpausable fun _ => ⟨hclosing, rfl⟩⟩

theorem spin (h : Inv s) (hloop : s.loop = .pausing call) (hit : Bool) :
    Inv (s.spin call hit) := by
  have hs := h.coordinated.spin hloop hit
  rw [ZeroRead.spin] at hs ⊢
  split_ifs at hs ⊢ with hthread
  · exact ⟨hs, { h.counted with }⟩
  · refine ⟨hs, { h.counted with closes := fun hpaused => h.counted.closes (.inl ?_) }⟩
    rcases hpaused with hpaused | hpaused
    · cases hpaused
    · cases hpaused
      exact hloop

theorem uvPipeUnpauseRead (h : Inv s) (hloop : s.loop = .paused call) :
    Inv (s.uvPipeUnpauseRead call) := by
  cases call with
  | stop | name =>
    exact ⟨h.coordinated.unpause hloop rfl rfl rfl rfl, { h.counted with closes := nofun }⟩
  | close =>
    obtain ⟨hclosing, hreading⟩ := h.counted.closes (.inr hloop)
    have hclosed : s.closed = true → False := by
      intro hclosed
      cases hclosing.symm.trans (h.counted.closed hclosed).1
    have hreading' : s.reading = true → False := by simp [hreading]
    have hdone : Inv { s with
        loop := .free
        handleOpen := false
        readable := false
        writable := false
        closing := true } := by
      refine ⟨h.coordinated.unpause hloop rfl rfl rfl rfl, { h.counted with
        closes := nofun
        readable := fun hr => (hreading' hr).elim
        handleOpen := nofun
        writable := nofun
        closing := fun _ => ⟨rfl, rfl⟩
        closed := fun hc => (hclosed hc).elim }⟩
    rw [ZeroRead.uvPipeUnpauseRead]
    split_ifs with hreqs
    · exact ⟨{ hdone.coordinated with }, hdone.counted.wantEndgame (eq_false_of_ne_true hclosed)⟩
    · exact hdone

theorem uvReadStart (h : Inv s) (hloop : s.loop = .free) (queued : Bool) :
    ∃ t, s.uvReadStart queued = some t ∧ Inv t := by
  rw [ZeroRead.uvReadStart]
  split_ifs with hreading hreadable
  · exact ⟨s, rfl, h⟩
  · exact ⟨s, rfl, h⟩
  · have hstarted : Counted { s with reading := true } s.callback.running := by
      refine { h.counted with
        closes := fun hcloses => ?_
        readable := fun _ => eq_true_of_ne_false hreadable }
      rcases hcloses with hcloses | hcloses <;> cases hloop.symm.trans hcloses
    change ∃ t, (if s.readPending then _ else _) = some t ∧ _
    split_ifs with hpending
    · exact ⟨_, rfl, { h.coordinated with }, hstarted⟩
    · obtain ⟨t, ht, hs, hcounted, hcallback⟩ := hstarted.queueRead { h.coordinated with } hloop rfl
        (eq_false_of_ne_true hpending) queued
      refine ⟨t, ht, hs, ?_⟩
      rw [hcallback]
      exact hcounted

theorem readError {eof again : Bool} (h : Coordinated s) (hloop : s.loop = .free)
    (hcounted : Counted s 1) (hidle : s.thread = .idle) :
    Inv (s.uvPipeReadErrorOrEof eof again) := by
  rw [uvPipeReadErrorOrEof]
  have hstopped : Inv { s with
      readable := s.readable && !eof
      reading := false
      callback := .readCb again } := by
    refine ⟨{ h with }, { hcounted with
      closes := fun hcloses => ⟨(hcounted.closes hcloses).1, rfl⟩
      readable := nofun
      handleOpen := fun hreadable => hcounted.handleOpen ?_
      closing := fun hclosing => ⟨?_, (hcounted.closing hclosing).2⟩ }⟩
    · exact (Bool.and_eq_true_iff.mp hreadable).1
    · change (s.readable && !eof) = false
      rw [(hcounted.closing hclosing).1]
      rfl
  apply hstopped.pauseRead hloop
  · change s.thread ≠ .reading false ∧ (s.thread = .begins → _)
    rw [hidle]
    exact ⟨nofun, nofun⟩
  · nofun

section

variable (h : Inv s)
include h

theorem uvProcessPipeReadReq (hloop : s.loop = .free) (hcallback : s.callback = .none)
    (hposted : s.completions ≠ []) (outcome : PeekOutcome) (eof queued : Bool) :
    ∃ t, s.uvProcessPipeReadReq outcome eof queued = some t ∧ Inv t := by
  rw [ZeroRead.uvProcessPipeReadReq]
  cases hcompletions : s.completions with
  | nil => exact absurd hcompletions hposted
  | cons success completions =>
    obtain ⟨hpending, hidle, rfl⟩ := h.counted.read_pending hcompletions
    have hcounted : Counted { s with completions := [], readPending := false } 1 := { h.counted with
      posts := by
        change 0 + s.thread.alive.toNat = 0
        rw [hidle]
        rfl
      reqs := by
        have hreqs := h.counted.reqs
        rw [hpending, hcallback] at hreqs
        change s.reqsPending = 1 + _ + _ + _ + 0 at hreqs
        change s.reqsPending = 0 + s.writeReqsPending + s.shutdownReq.toNat + s.shutdowns + 1
        omega }
    have hs : Coordinated { s with completions := [], readPending := false } :=
      { h.coordinated with }
    change ∃ t, (if s.reading = false then _ else _) = some t ∧ _
    split_ifs with hreading hsuccess
    · exact hcounted.decreasePending hs
    · exact ⟨_, rfl, readError hs hloop hcounted hidle⟩
    · cases outcome with
      | failed => exact ⟨_, rfl, readError hs hloop hcounted hidle⟩
      | empty =>
        obtain ⟨t, ht, hst, hcountedt, hcallbackt⟩ := hcounted.queueRead hs hloop
          (eq_true_of_ne_false hreading) rfl queued
        change ∃ u, (ZeroRead.uvPipeQueueRead _ queued).bind _ = some u ∧ _
        rw [ht]
        exact hcountedt.decreasePending hst
      | data => exact ⟨_, rfl, { hs with }, { hcounted with }⟩

theorem returned (hloop : s.loop = .free) (hcallback : s.callback ≠ .none)
    (queued : Bool) : ∃ t, s.returned queued = some t ∧ Inv t := by
  have hcounted := h.counted
  rw [ZeroRead.returned]
  cases hcalled : s.callback with
  | none => exact absurd hcalled hcallback
  | readCb again =>
    rw [hcalled] at hcounted
    change ∃ t, (if again ∧ s.reading ∧ s.readPending = false then _ else _) = some t ∧ _
    split_ifs with hagain
    · obtain ⟨t, ht, hst, hcountedt, -⟩ := hcounted.queueRead h.coordinated hloop hagain.2.1
        hagain.2.2 queued
      rw [ht]
      exact hcountedt.decreasePending hst
    · exact hcounted.decreasePending h.coordinated
  | shutdownCb =>
    rw [hcalled] at hcounted
    exact hcounted.decreasePending h.coordinated

theorem uvWrite : Inv s.uvWrite := by
  rw [ZeroRead.uvWrite]
  split_ifs with hwritable
  · exact h
  · refine ⟨{ h.coordinated with }, { h.counted with reqs := ?_, closed := fun hclosed => ?_ }⟩
    · have hreqs := h.counted.reqs
      change s.reqsPending + 1 = s.readPending.toNat + (s.writeReqsPending + 1) +
        s.shutdownReq.toNat + s.shutdowns + s.callback.running
      omega
    · exact absurd (h.counted.closing (h.counted.closed hclosed).1).2 hwritable

theorem uvProcessPipeWriteReq (hcallback : s.callback = .none)
    (hwrites : 0 < s.writeReqsPending) : ∃ t, s.uvProcessPipeWriteReq = some t ∧ Inv t := by
  have hreqs := h.counted.reqs
  have hclosed := h.counted.not_closed (by omega)
  have hcounted : Counted { s with writeReqsPending := s.writeReqsPending - 1 } 1 := by
    refine { h.counted with reqs := ?_ }
    rw [hcallback] at hreqs
    change s.reqsPending = _ + _ + _ + _ + 0 at hreqs
    change s.reqsPending = s.readPending.toNat + (s.writeReqsPending - 1) + s.shutdownReq.toNat +
      s.shutdowns + 1
    omega
  have hs : Coordinated { s with writeReqsPending := s.writeReqsPending - 1 } :=
    { h.coordinated with }
  rw [ZeroRead.uvProcessPipeWriteReq]
  change ∃ t, (if s.shutdownReq ∧ s.writeReqsPending - 1 = 0 then _ else _) = some t ∧ _
  split_ifs with hshutdown
  · exact (hcounted.wantEndgame hclosed).decreasePending { hs with }
  · exact hcounted.decreasePending hs

theorem uvShutdown : Inv s.uvShutdown := by
  rw [ZeroRead.uvShutdown]
  split_ifs with hwritable
  · exact h
  · have hwritable := eq_true_of_ne_false hwritable
    have hnone := h.counted.writable hwritable
    have hclosed : s.closed = true → False := by
      intro hclosed
      have hnot := (h.counted.closing (h.counted.closed hclosed).1).2
      cases hnot.symm.trans hwritable
    refine ⟨{ h.coordinated with }, { h.counted with
      reqs := ?_
      writable := nofun
      closing := fun hclosing => ⟨(h.counted.closing hclosing).1, rfl⟩
      closed := fun hc => (hclosed hc).elim }⟩
    have hreqs := h.counted.reqs
    rw [hnone] at hreqs
    change s.reqsPending = _ + _ + 0 + _ + _ at hreqs
    change s.reqsPending + 1 = s.readPending.toNat + s.writeReqsPending + 1 + s.shutdowns +
      s.callback.running
    omega

theorem uvProcessPipeShutdownReq (hcallback : s.callback = .none)
    (hshutdowns : 0 < s.shutdowns) : Inv s.uvProcessPipeShutdownReq := by
  refine ⟨{ h.coordinated with }, { h.counted with reqs := ?_, handleOpen := fun hreadable => ?_ }⟩
  · have hreqs := h.counted.reqs
    rw [hcallback] at hreqs
    change s.reqsPending = _ + _ + _ + _ + 0 at hreqs
    change s.reqsPending = s.readPending.toNat + s.writeReqsPending + s.shutdownReq.toNat +
      (s.shutdowns - 1) + 1
    omega
  · change (s.handleOpen && s.readable) = true
    rw [h.counted.handleOpen hreadable]
    exact hreadable

theorem mayLock_of_endgame
    (hcareful : s.cancelable = true →
      s.closing = true ∧ s.reqsPending = 0 ∨ s.thread.mayLock = false) :
    s.thread.mayLock = false := by
  by_cases hcancelable : s.cancelable = true
  · rcases hcareful hcancelable with ⟨-, hzero⟩ | hlock
    · have hreqs := h.counted.reqs
      have hpending : s.readPending = false := by
        rw [← Bool.toNat_eq_zero]
        omega
      rw [(h.counted.thread_idle hpending).1]
      rfl
    · exact hlock
  · exact h.coordinated.destroyed (eq_false_of_ne_true hcancelable)

theorem uvPipeEndgame (hloop : s.loop = .free) (hcallback : s.callback = .none)
    (hqueued : s.endgameQueued = true) (hlock : s.thread.mayLock = false) (fails : Bool) :
    ∃ t, s.uvPipeEndgame fails = some t ∧ Inv t := by
  have hreqs := h.counted.reqs
  have hclosed : s.closed = true → False := by
    intro hclosed
    cases hqueued.symm.trans (h.counted.closed hclosed).2.2
  have hs := h.coordinated.destroyMutex hloop hlock
  rw [hcallback] at hreqs
  change s.reqsPending = _ + _ + _ + _ + 0 at hreqs
  rw [ZeroRead.uvPipeEndgame]
  change ∃ t, (if s.shutdownReq ∧ s.writeReqsPending = 0 then
    if s.closing then _ else if fails then _ else _
    else if s.closing ∧ s.reqsPending = 0 then if s.closed then _ else _ else _) = some t ∧ _
  split_ifs with hshutdown hclosing hfails hend
  · refine ⟨_, rfl, { hs with }, { h.counted with
      reqs := ?_
      writable := fun _ => rfl
      closed := fun hc => (hclosed hc).elim }⟩
    rw [hshutdown.1] at hreqs
    change s.reqsPending = s.readPending.toNat + s.writeReqsPending + 0 + s.shutdowns + 1
    change s.reqsPending = _ + _ + 1 + _ + 0 at hreqs
    omega
  · refine ⟨_, rfl, { hs with }, { h.counted with
      reqs := ?_
      writable := fun _ => rfl
      closing := fun hc => absurd hc hclosing
      closed := fun hc => (hclosed hc).elim }⟩
    rw [hshutdown.1] at hreqs
    change s.reqsPending = s.readPending.toNat + s.writeReqsPending + 0 + s.shutdowns + 1
    change s.reqsPending = _ + _ + 1 + _ + 0 at hreqs
    omega
  · refine ⟨_, rfl, { hs with }, { h.counted with
      reqs := ?_
      writable := fun _ => rfl
      closed := fun hc => (hclosed hc).elim }⟩
    rw [hshutdown.1] at hreqs
    change s.reqsPending = s.readPending.toNat + s.writeReqsPending + 0 + (s.shutdowns + 1) +
      s.callback.running
    rw [hcallback]
    change s.reqsPending = _ + _ + 1 + _ + 0 at hreqs
    change _ = _ + 0
    omega
  · exact ⟨_, rfl, { hs with }, { h.counted with closed := fun _ => ⟨hend.1, hend.2, rfl⟩ }⟩
  · exact ⟨_, rfl, hs, { h.counted with closed := fun hc => (hclosed hc).elim }⟩

theorem threadStep (hidle : s.thread ≠ .idle)
    (hlocks : s.thread.locks = true → s.held = false) {result : ReadFileResult}
    (habort : s.thread.reads = true → result = .aborted → s.cancelled = true) (duplicated : Bool) :
    ∃ t, s.threadStep duplicated result = some t ∧ Inv t := by
  obtain ⟨t, ht, hs⟩ := h.coordinated.threadStep hidle hlocks habort duplicated
  have hposts := h.counted.posts
  refine ⟨t, ht, hs, ?_⟩
  rcases threadStep_cases ht with ⟨success, hthread, rfl⟩ | ⟨_, thread, _, halive, hbefore, -, rfl⟩
  · refine { h.counted with posts := ?_ }
    rw [hthread] at hposts
    change (s.completions ++ [success]).length + 0 = _
    rw [length_append]
    exact hposts
  · refine { h.counted with posts := ?_ }
    change _ + thread.alive.toNat = _
    rw [halive, ← hbefore]
    exact hposts

theorem next (henabled : s.Enabled e) (hcareful : Careful s e) :
    ∃ t, s.next e = some t ∧ Inv t := by
  cases e with
  | readStart queued => exact h.uvReadStart henabled queued
  | readStop => exact ⟨_, rfl, h.uvReadStop henabled hcareful⟩
  | getname => exact ⟨_, rfl, h.uvPipeGetname henabled hcareful⟩
  | write => exact ⟨_, rfl, h.uvWrite⟩
  | shutdown => exact ⟨_, rfl, h.uvShutdown⟩
  | close => exact h.uvPipeClose henabled.1 henabled.2 hcareful
  | spin hit =>
    obtain ⟨call, -, hloop⟩ := henabled
    rw [ZeroRead.next, hloop]
    exact ⟨_, rfl, h.spin hloop hit⟩
  | unpause =>
    obtain ⟨call, -, hloop⟩ := henabled
    rw [ZeroRead.next, hloop]
    exact ⟨_, rfl, h.uvPipeUnpauseRead hloop⟩
  | process outcome eof queued =>
    obtain ⟨hloop, hcallback, hposted⟩ := henabled
    exact h.uvProcessPipeReadReq hloop hcallback hposted outcome eof queued
  | returned queued => exact h.returned henabled.1 henabled.2 queued
  | writeDone =>
    obtain ⟨-, hcallback, hwrites⟩ := henabled
    exact h.uvProcessPipeWriteReq hcallback hwrites
  | shutdownDone =>
    obtain ⟨-, hcallback, hshutdowns⟩ := henabled
    exact ⟨_, rfl, h.uvProcessPipeShutdownReq hcallback hshutdowns⟩
  | endgame fails =>
    obtain ⟨hloop, hcallback, hqueued⟩ := henabled
    exact h.uvPipeEndgame hloop hcallback hqueued (h.mayLock_of_endgame hcareful) fails
  | thread duplicated result =>
    obtain ⟨hidle, hlocks, habort⟩ := henabled
    exact h.threadStep hidle hlocks habort duplicated

end

theorem init (h : Init s) : Inv s := by
  have hregistered : s.readfileThread = s.thread.registered := by
    rw [h.thread]
    exact h.readfileThread
  constructor
  · apply Coordinated.of_free h.loop hregistered
    · rw [h.thread]
      exact fun _ => rfl
    · rw [h.thread]
      exact fun _ => rfl
    · rw [h.thread]
      exact nofun
    · rw [h.thread]
      exact nofun
  · constructor
    · rw [h.completions, h.thread, h.readPending]
      rfl
    · rw [h.reqsPending, h.readPending, h.writeReqsPending, h.shutdownReq, h.shutdowns, h.callback]
      rfl
    · rw [h.loop]
      rintro (hloop | hloop) <;> cases hloop
    · rw [h.reading]
      exact nofun
    · exact fun _ => h.handleOpen
    · exact fun _ => h.shutdownReq
    · rw [h.closing]
      exact nofun
    · rw [h.closed]
      exact nofun

theorem of_reachable (h : Reachable Init (Guarded Careful Step) s) : Inv s :=
  h.invariant_of_guarded (fun _ => init) fun _ _ => next

end Inv

/-- In a pause no `ReadFile` is in progress, and one that is aborted while the read is wanted begins
again after the pause. A read that is pending is at work in the thread or has posted one completion,
and outside of a pause each step of the thread gets nearer to it. The mutex is destroyed where the
thread does not take it any more, and no assertion fails. -/
theorem zeroRead_paused (h : Reachable Init (Guarded Careful Step) s) :
    (∀ call, s.loop = .paused call → s.thread.reads = false) ∧
      (∀ hThread duplicated result, s.thread = .returned hThread .aborted → s.reading = true →
        s.next (.thread duplicated result) =
          some { s with readfileThread := false, thread := .relocking true }) ∧
      (∀ hThread duplicated result, s.thread = .relocking hThread → s.loop = .free →
        s.step (.thread duplicated result) =
          some { s with readfileThread := true, thread := .reading true, cancelled := false }) ∧
      s.completions.length + s.thread.alive.toNat = s.readPending.toNat ∧
      (∀ duplicated result t, s.loop = .free → s.step (.thread duplicated result) = some t →
        t.thread.rank < s.thread.rank) ∧
      (s.cancelable = false → s.thread.mayLock = false) ∧
      ∀ e, s.Enabled e → Careful s e → ∃ t, s.next e = some t := by
  obtain ⟨hs, hcounted⟩ := Inv.of_reachable h
  refine ⟨fun call hcall => hs.notReading hcall, ?_, ?_, hcounted.posts, ?_, hs.destroyed, ?_⟩
  · intro hThread duplicated result hthread hreading
    obtain ⟨rfl, call, hcall⟩ := hs.aborted hThread hthread
    have hcancelable := hs.pausing call hcall
    simp only [next, threadStep, hthread, hcancelable, hreading, and_self, if_true]
  · intro hThread duplicated result hthread hloop
    have hduplicated : hThread = true := by
      by_contra hfalse
      exact hs.relocking (hthread.trans (congrArg _ (eq_false_of_ne_true hfalse)))
    have hcancelable : s.cancelable = true := by
      by_contra hfalse
      have hlock := hs.destroyed (eq_false_of_ne_true hfalse)
      rw [hthread] at hlock
      cases hlock
    have henabled : s.Enabled (.thread duplicated result) := by
      refine ⟨by simp [hthread], fun _ => by simp [held, hloop], fun hreads => ?_⟩
      rw [hthread] at hreads
      cases hreads
    rw [step, if_pos henabled]
    simp only [next, threadStep, hthread, hcancelable, hduplicated, Bool.true_eq_false, if_false]
  · intro duplicated result t hloop hst
    rw [step] at hst
    split_ifs at hst
    rcases threadStep_cases hst with ⟨success, hthread, rfl⟩ | ⟨_, thread, _, -, -, hrank, rfl⟩
    · rw [hthread]
      exact Nat.zero_lt_one
    · rcases hrank with hrank | ⟨hThread, haborted⟩
      · exact hrank
      · exact absurd haborted ((hs.unaborted (by simp [hloop])).2 hThread)
  · intro e henabled hcareful
    obtain ⟨t, ht, -⟩ := Inv.next ⟨hs, hcounted⟩ henabled hcareful
    exact ⟨t, ht⟩

/-- A pipe that has been opened. -/
def opened : ZeroRead where
  cancelable := true
  reading := false
  readPending := false
  readable := true
  writable := true
  closing := false
  closed := false
  endgameQueued := false
  shutdownReq := false
  handleOpen := true
  writeReqsPending := 0
  shutdowns := 0
  reqsPending := 0
  readfileThread := false
  thread := .idle
  cancelled := false
  completions := []
  loop := .free
  callback := .none

theorem opened_init : Init opened :=
  ⟨rfl, rfl, rfl, rfl, rfl, rfl, rfl, rfl, rfl, rfl, rfl, rfl, rfl, rfl, rfl, rfl, rfl⟩

/-- The name of a pipe is asked for while the thread blocks in its `ReadFile`. -/
def pausedRun : Option ZeroRead :=
  [Event.readStart true, .thread true .success, .thread true .success, .getname, .spin true,
    .thread true .aborted, .thread true .success, .spin true].foldlM
    (fun s e => if Careful s e then s.step e else none) opened

theorem pausedRun_isSome : pausedRun.isSome = true := by
  rfl

theorem zeroRead_paused_name : (pausedRun.get pausedRun_isSome).reading = true ∧
    (pausedRun.get pausedRun_isSome).thread.reads = false := by
  have hrun : Reachable Init (Guarded Careful Step) (pausedRun.get pausedRun_isSome) :=
    .of_foldlM_if (.init opened_init) (Option.some_get pausedRun_isSome).symm
  exact ⟨by decide, (zeroRead_paused hrun).1 .name (by decide)⟩

/-- A pipe is shut down while the thread blocks in its `ReadFile`. -/
def shutdownRun : List Event :=
  [.readStart true, .thread true .success, .thread true .success, .shutdown, .endgame false]

def namedRun : Option ZeroRead :=
  (shutdownRun ++ [Event.getname]).foldlM (fun s e => s.step e) opened

theorem namedRun_isSome : namedRun.isSome = true := by
  rfl

def finishedRun : Option ZeroRead :=
  (shutdownRun ++ [Event.thread true .success, .thread true .success, .thread true .success]).foldlM
    (fun s e => s.step e) opened

theorem finishedRun_isSome : finishedRun.isSome = true := by
  rfl

/-- After the endgame of a shutdown a pause finds the `ReadFile` in progress, and the thread takes a
mutex that has been destroyed. -/
theorem destroyed_by_shutdown :
    (∃ s, Reachable Init Step s ∧ s.loop = .paused .name ∧ s.thread.reads = true) ∧
    ∃ s, Reachable Init Step s ∧ s.cancelable = false ∧ s.thread.locks = true ∧
      s.Enabled (.thread true .success) ∧ s.next (.thread true .success) = none := by
  constructor
  · refine ⟨namedRun.get namedRun_isSome, ?_, by decide, by decide⟩
    exact .of_foldlM (.init opened_init) (Option.some_get namedRun_isSome).symm
  · refine ⟨finishedRun.get finishedRun_isSome, ?_, by decide, by decide,
      by decide, by decide⟩
    exact .of_foldlM (.init opened_init) (Option.some_get finishedRun_isSome).symm

end ZeroRead

end LibuvWorks.Win
