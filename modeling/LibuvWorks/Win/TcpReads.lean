import LibuvWorks.Win.TcpRead

/-!
# The read request is out once

`UV_HANDLE_READ_PENDING` says whether the request is out, as long as no read fails when it is
queued: that branch of `uv_tcp_queue_read` puts the request into the pending queue without the flag.
-/
namespace LibuvWorks.Win.TcpRead

open Transition

variable {s t : TcpRead} {e : Event} {outcome : RecvOutcome} {registered : Bool}

def readActivity (s : TcpRead) : ℤ := if s.reading then 1 else 0

/-- What holds of the flags and counters of a handle; `processed` requests are being handled. -/
structure Balanced (s : TcpRead) (processed : ℕ) : Prop where
  pending : s.readReq.outstanding = if s.readPending then 1 else 0
  zeroRead : s.readPending = true → s.zeroRead = true
  reqs : s.reqsPending = s.readReq.outstanding + s.others + processed
  active : s.activecnt = s.others + s.readActivity
  closing : s.closing = true → s.reading = false ∧ s.readable = false

/-- A read that is queued does not fail at once, and its completion is waited for. -/
def Queues (outcome : RecvOutcome) (registered : Bool) : Prop :=
  outcome ≠ .failed ∧ (outcome = .pending → registered = true)

instance : Decidable (Queues outcome registered) := inferInstanceAs (Decidable (_ ∧ _))

/-- What the handle asks of the system and of `alloc_cb`: queued reads do not fail at once, and a
read after an `alloc_cb` that has stopped reading neither fails nor ends the stream. -/
def Careful (s : TcpRead) : Event → Prop
  | .process _ outcome registered => Queues outcome registered
  | .returned outcome registered => Queues outcome registered
  | .readStart outcome registered => Queues outcome registered
  | .buffer len result => s.reading = false → len = 0 ∨ (result ≠ .eof ∧ result ≠ .failed)
  | _ => True

instance (s : TcpRead) (e : Event) : Decidable (Careful s e) := by
  induction e using Event.casesOn <;> dsimp only [Careful] <;> infer_instance

namespace Balanced

variable {processed : ℕ}

theorem uvTcpQueueRead (h : Balanced s processed) (hreading : s.reading = true)
    (hpending : s.readPending = false) (hqueues : Queues outcome registered) :
    ∃ t, s.uvTcpQueueRead outcome registered = some t ∧ Balanced t processed ∧
      t.phase = s.phase := by
  have hout : s.readReq.outstanding = 0 := by
    rw [h.pending, hpending]
    rfl
  have hreqs := h.reqs
  have hclosing : s.closing = false := by
    by_contra hset
    cases hreading.symm.trans (h.closing (by simpa using hset)).1
  obtain ⟨hfailed, hregistered⟩ := hqueues
  -- The request is out once, in the kernel or on its way to the loop.
  have hkeep : ∀ r : RecvReq, r.outstanding = 1 → ∀ waitHandle, Balanced { s with
      zeroRead := true
      reqsPending := s.reqsPending + 1
      readPending := true
      readReq := r
      waitHandle } processed := by
    intro r hr waitHandle
    exact { h with
      pending := hr
      zeroRead := fun _ => rfl
      reqs := by
        change s.reqsPending + 1 = r.outstanding + s.others + processed
        omega
      closing := fun habs => by cases hclosing.symm.trans habs }
  have hsubmit : s.readReq.submit.outstanding = 1 := by rw [RecvReq.outstanding_submit, hout]
  have hinsert : s.readReq.insert.outstanding = 1 := by rw [RecvReq.outstanding_insert, hout]
  unfold TcpRead.uvTcpQueueRead
  rw [if_neg (by simp [hreading, hpending])]
  dsimp only
  rw [if_neg hfailed]
  split_ifs with hsync hwait hset hlate
  · exact ⟨_, rfl, hkeep _ hinsert _, rfl⟩
  · exact ⟨_, rfl, hkeep _ hsubmit _, rfl⟩
  · exact absurd (hregistered hlate) hset
  · exact ⟨_, rfl, hkeep _ hinsert _, rfl⟩
  · exact ⟨_, rfl, hkeep _ hsubmit _, rfl⟩

theorem decreasePending (h : Balanced s 1) :
    ∃ t, s.decreasePending = some t ∧ Balanced t 0 ∧ t.phase = .idle := by
  have hreqs := h.reqs
  unfold TcpRead.decreasePending
  rw [if_neg (by omega)]
  refine ⟨_, rfl, { h with reqs := ?_ }, rfl⟩
  change s.reqsPending - 1 = s.readReq.outstanding + s.others + 0
  omega

section

variable (h : Balanced s processed)
include h

theorem setPhase (phase : TcpReadPhase) :
    Balanced { s with phase } processed :=
  { h with }

theorem stopReading (hreading : s.reading = true) :
    Balanced { s with reading := false }.decreaseActive processed where
  pending := h.pending
  zeroRead := h.zeroRead
  reqs := h.reqs
  active := by
    have hactive := h.active
    rw [readActivity, hreading, if_pos rfl] at hactive
    change s.activecnt - 1 = s.others + (if false = true then 1 else 0)
    rw [if_neg Bool.false_ne_true]
    omega
  closing habs := ⟨rfl, (h.closing habs).2⟩

theorem uvReadStop :
    Balanced s.uvReadStop processed ∧ s.uvReadStop.reading = false ∧
      s.uvReadStop.phase = s.phase := by
  unfold TcpRead.uvReadStop
  split_ifs with hreading
  · exact ⟨h.stopReading hreading, rfl, rfl⟩
  · exact ⟨h, by simpa using hreading, rfl⟩

theorem uvReadStart (hqueues : Queues outcome registered) :
    ∃ t, s.uvReadStart outcome registered = some t ∧ Balanced t processed ∧ t.phase = s.phase := by
  unfold TcpRead.uvReadStart
  by_cases hreading : s.reading = true
  · rw [if_pos hreading]
    exact ⟨s, rfl, h, rfl⟩
  · rw [if_neg hreading]
    by_cases hreadable : s.readable = false
    · rw [if_pos hreadable]
      exact ⟨s, rfl, h, rfl⟩
    · rw [if_neg hreadable]
      have hclosing : s.closing = false := by
        by_contra hset
        exact hreadable (h.closing (by simpa using hset)).2
      have hstarted :
          Balanced { s with reading := true, activecnt := s.activecnt + 1 } processed := { h with
        active := by
          have hactive := h.active
          rw [readActivity, if_neg hreading] at hactive
          change s.activecnt + 1 = s.others + (if true = true then 1 else 0)
          rw [if_pos rfl]
          omega
        closing := fun habs => by cases hclosing.symm.trans habs }
      have hincrease : { s with reading := true }.increaseActive =
          some { s with reading := true, activecnt := s.activecnt + 1 } := by
        unfold increaseActive
        rw [if_neg (by simp [hclosing])]
      rw [hincrease, Option.bind_eq_bind, Option.bind_some]
      split_ifs with hpending
      · exact hstarted.uvTcpQueueRead rfl hpending hqueues
      · exact ⟨_, rfl, hstarted, rfl⟩

theorem uvTcpClose (hclosing : s.closing = false) :
    ∃ t, s.uvTcpClose = some t ∧ Balanced t processed ∧ t.phase = s.phase := by
  obtain ⟨hstop, hreading, hphase⟩ := h.uvReadStop
  unfold TcpRead.uvTcpClose
  rw [if_neg (by simp [hclosing])]
  exact ⟨_, rfl,
    { hstop with closing := fun _ => ⟨hreading, rfl⟩ }, hphase⟩

end

/-! ### Processing -/

theorem atDone (h : Balanced s 1) (hqueues : Queues outcome registered) :
    ∃ t, s.atDone outcome registered = some t ∧ Balanced t 0 ∧ t.phase = .idle := by
  unfold TcpRead.atDone
  split_ifs with hqueue
  · obtain ⟨t, ht, hbalanced, -⟩ := h.uvTcpQueueRead hqueue.1 hqueue.2 hqueues
    rw [ht]
    exact hbalanced.decreasePending
  · exact h.decreasePending

def Rests (t : TcpRead) : Prop := Balanced t t.phase.processed

theorem rests_of_idle (h : Balanced t 0) (hphase : t.phase = .idle) : Rests t := by
  unfold Rests
  rw [hphase]
  exact h

theorem readLoop (h : Balanced s 1) (hqueues : Queues outcome registered) :
    ∃ t, s.readLoop outcome registered = some t ∧ Rests t := by
  unfold TcpRead.readLoop
  split_ifs
  · exact ⟨_, rfl, h.setPhase _⟩
  · obtain ⟨t, ht, hbalanced, hphase⟩ := h.atDone hqueues
    exact ⟨t, ht, rests_of_idle hbalanced hphase⟩

theorem endReading (h : Balanced s 1) (hreading : s.reading = true) (after : AfterReadCb) :
    Rests (s.endReading after) :=
  (h.stopReading hreading).setPhase _

theorem taken (h : Balanced s 0) (hqueued : 0 < s.readReq.queued) :
    Balanced { s with readReq := s.readReq.take, readPending := false } 1 ∧ s.zeroRead = true := by
  have htake := s.readReq.outstanding_take hqueued
  have hout := h.pending
  have hreqs := h.reqs
  split_ifs at hout with hpending
  · refine ⟨⟨?_, nofun, ?_, h.active, h.closing⟩, h.zeroRead hpending⟩
    · change s.readReq.take.outstanding = if false = true then 1 else 0
      rw [if_neg Bool.false_ne_true]
      omega
    · change s.reqsPending = s.readReq.take.outstanding + s.others + 1
      omega
  · omega

theorem uvProcessTcpReadReq {completion : ReadCompletion} (h : Balanced s 0)
    (hqueued : 0 < s.readReq.queued) (hqueues : Queues outcome registered) :
    ∃ t, s.uvProcessTcpReadReq completion outcome registered = some t ∧ Rests t := by
  obtain ⟨htaken, hzero⟩ := h.taken hqueued
  unfold TcpRead.uvProcessTcpReadReq
  cases completion with
  | failed =>
    dsimp only
    split_ifs with herror
    · rcases herror with hreading | hnonzero
      · exact ⟨_, rfl, htaken.endReading hreading .leave⟩
      · cases hzero.symm.trans hnonzero
    · obtain ⟨t, ht, hbalanced, hphase⟩ := htaken.decreasePending
      exact ⟨t, ht, rests_of_idle hbalanced hphase⟩
  | succeeded bytes full =>
    dsimp only
    rw [if_pos hzero]
    exact htaken.readLoop hqueues

theorem recvRound {len : ℕ} {result : LoopRecv} (h : Balanced s 1)
    (hcareful : s.reading = false → len = 0 ∨ (result ≠ .eof ∧ result ≠ .failed)) :
    Rests (s.recvRound len result) := by
  unfold TcpRead.recvRound
  split_ifs with hlen
  · exact h.setPhase _
  · have hreading : result = .eof ∨ result = .failed → s.reading = true := by
      intro hended
      by_contra hset
      rcases hcareful (by simpa using hset) with hzero | ⟨heof, hfailed⟩
      · exact hlen hzero
      · exact hended.elim heof hfailed
    cases result with
    | bytes full | wouldBlock => exact h.setPhase _
    | failed => exact h.endReading (hreading (.inr rfl)) .done
    | eof =>
      have hended := h.endReading (hreading (.inl rfl)) .done
      exact { hended with closing := fun _ => ⟨rfl, rfl⟩ }

theorem returned (h : Balanced s 1) (hqueues : Queues outcome registered) :
    ∃ t, s.returned outcome registered = some t ∧ Rests t := by
  have hleave : ∃ t, s.decreasePending = some t ∧ Rests t := by
    obtain ⟨t, ht, hbalanced, hphase⟩ := h.decreasePending
    exact ⟨t, ht, rests_of_idle hbalanced hphase⟩
  unfold TcpRead.returned
  split
  · exact h.readLoop hqueues
  · obtain ⟨t, ht, hbalanced, hphase⟩ := h.atDone hqueues
    exact ⟨t, ht, rests_of_idle hbalanced hphase⟩
  · exact hleave

/-! ### Every run -/

theorem rests_of_same (h : Balanced t s.phase.processed) (hphase : t.phase = s.phase) :
    Rests t := by
  unfold Rests
  rw [hphase]
  exact h

theorem next (h : Rests s) (henabled : s.Enabled e) (hcareful : Careful s e) :
    ∃ t, s.next e = some t ∧ Rests t := by
  cases e with
  | arrive =>
    refine ⟨_, rfl, ?_, h.zeroRead, ?_, h.active, h.closing⟩
    · change s.readReq.arrive.outstanding = _
      rw [s.readReq.outstanding_arrive henabled]
      exact h.pending
    · change s.reqsPending = s.readReq.arrive.outstanding + s.others + s.phase.processed
      rw [s.readReq.outstanding_arrive henabled]
      exact h.reqs
  | process completion outcome registered =>
    obtain ⟨hidle, hqueued⟩ := henabled
    unfold Rests at h
    rw [hidle] at h
    exact Balanced.uvProcessTcpReadReq h hqueued hcareful
  | buffer len result =>
    unfold Rests at h
    rw [henabled] at h
    exact ⟨_, rfl, Balanced.recvRound h hcareful⟩
  | returned outcome registered =>
    have hone : s.phase.processed = 1 := by
      cases hphase : s.phase with
      | idle => exact absurd hphase henabled.1
      | alloc | readCb after | otherCb => rfl
    unfold Rests at h
    rw [hone] at h
    exact Balanced.returned h hcareful
  | reqBegin =>
    have hreqs := h.reqs
    have hactive := h.active
    refine ⟨_, if_neg (fun habs => ?_), h.pending, h.zeroRead, ?_, ?_, h.closing⟩
    · cases henabled.symm.trans habs.2
    · change s.reqsPending + 1 = s.readReq.outstanding + (s.others + 1) + s.phase.processed
      omega
    · change s.activecnt + 1 = (s.others + 1 : ℕ) + s.readActivity
      omega
  | reqDone =>
    obtain ⟨hidle, hothers⟩ := henabled
    have hreqs := h.reqs
    have hactive := h.active
    rw [hidle] at hreqs
    refine ⟨_, rfl, h.pending, h.zeroRead, ?_, ?_, h.closing⟩
    · change s.reqsPending = s.readReq.outstanding + (s.others - 1) + 1
      change s.reqsPending = s.readReq.outstanding + s.others + 0 at hreqs
      omega
    · change s.activecnt - 1 = (s.others - 1 : ℕ) + s.readActivity
      omega
  | readStart outcome registered =>
    obtain ⟨t, ht, hbalanced, hphase⟩ := Balanced.uvReadStart h hcareful
    exact ⟨t, ht, rests_of_same hbalanced hphase⟩
  | readStop =>
    obtain ⟨hbalanced, -, hphase⟩ := Balanced.uvReadStop h
    exact ⟨_, rfl, rests_of_same hbalanced hphase⟩
  | close =>
    obtain ⟨t, ht, hbalanced, hphase⟩ := Balanced.uvTcpClose h henabled
    exact ⟨t, ht, rests_of_same hbalanced hphase⟩

theorem init (h : Init s) : Rests s := by
  unfold Rests
  rw [h.phase]
  constructor
  · rw [h.readReq, h.readPending]
    rfl
  · intro habs
    cases h.readPending.symm.trans habs
  · rw [h.reqsPending, h.readReq, h.others]
    rfl
  · rw [h.activecnt, h.others, readActivity, h.reading]
    rfl
  · intro habs
    cases h.closing.symm.trans habs

theorem of_reachable (h : Reachable Init (Guarded Careful Step) s) : Rests s :=
  h.invariant_of_guarded (fun _ => init) fun _ _ => next

end Balanced

/-- The flag says whether the request is out, it is out once, each counter counts what it is for,
and no assertion fails. -/
theorem tcpRead_balanced (h : Reachable Init (Guarded Careful Step) s) :
    (s.readPending = true ↔ s.readReq.outstanding ≠ 0) ∧ s.readReq.outstanding ≤ 1 ∧
    s.reqsPending = s.readReq.outstanding + s.others + s.phase.processed ∧ 0 ≤ s.activecnt ∧
    ∀ e, s.Enabled e → Careful s e → ∃ t, s.next e = some t := by
  have hs := Balanced.of_reachable h
  have hpending := hs.pending
  have hactive := hs.active
  refine ⟨?_, ?_, hs.reqs, ?_, fun e henabled hcareful => ?_⟩
  · split_ifs at hpending with hset
    · exact iff_of_true hset (by omega)
    · exact iff_of_false hset (not_not.mpr hpending)
  · split_ifs at hpending <;> omega
  · unfold readActivity at hactive
    split_ifs at hactive <;> omega
  · obtain ⟨t, ht, -⟩ := Balanced.next hs henabled hcareful
    exact ⟨t, ht⟩

/-- A connection on a socket that bypasses the completion port. -/
def connected : TcpRead where
  reading := false
  readPending := false
  zeroRead := false
  readable := true
  closing := false
  syncBypass := true
  emulateIocp := false
  waitHandle := false
  activecnt := 0
  reqsPending := 0
  readReq := ⟨0, 0⟩
  others := 0
  phase := .idle

theorem connected_init : Init connected := ⟨rfl, rfl, rfl, rfl, rfl, rfl, rfl, rfl⟩

/-- Data arrives, is read, and reading is stopped and started again in the callback. -/
def restartRun : Option TcpRead :=
  [Event.readStart .pending true, .arrive, .process (.succeeded 0 false) .pending true,
    .buffer 100 (.bytes false), .readStop, .readStart .succeeded true,
      .returned .pending true].foldlM
    (fun s e => if Careful s e then s.step e else none) connected

theorem restartRun_isSome : restartRun.isSome = true := by
  rfl

theorem tcpRead_balanced_restart : (restartRun.get restartRun_isSome).readReq.outstanding ≤ 1 := by
  have hrun : Reachable Init (Guarded Careful Step) (restartRun.get restartRun_isSome) :=
    .of_foldlM_if (.init connected_init) (Option.some_get restartRun_isSome).symm
  exact (tcpRead_balanced hrun).2.1

/-- The first read fails at once, and reading is stopped and started again. -/
def failedRun : Option TcpRead :=
  [Event.readStart .failed true, .readStop, .readStart .pending true].foldlM step connected

theorem failedRun_isSome : failedRun.isSome = true := by
  rfl

/-- `alloc_cb` stops reading, and the stream ends. -/
def stoppedRun : Option TcpRead :=
  [Event.readStart .pending true, .arrive, .process (.succeeded 0 false) .pending true, .readStop,
    .buffer 100 .eof].foldlM step connected

theorem stoppedRun_isSome : stoppedRun.isSome = true := by
  rfl

/-- The request is submitted while it is in the pending queue, or the activity falls below zero. -/
theorem submitted_twice : (∃ s, Reachable Init Step s ∧ s.readReq = ⟨1, 1⟩) ∧
    ∃ s, Reachable Init Step s ∧ s.activecnt = -1 := by
  constructor
  · refine ⟨failedRun.get failedRun_isSome, ?_, by decide⟩
    exact .of_foldlM (.init connected_init) (Option.some_get failedRun_isSome).symm
  · refine ⟨stoppedRun.get stoppedRun_isSome, ?_, by decide⟩
    exact .of_foldlM (.init connected_init) (Option.some_get stoppedRun_isSome).symm

end LibuvWorks.Win.TcpRead
