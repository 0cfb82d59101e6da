import LibuvWorks.Win.TcpRead
import LibuvWorks.Lib.History

/-!
# The receive request of a udp handle: `win/udp.c`

A udp handle has one receive request, embedded in it. `uv_active_udp_streams_threshold` is 0, so it
is always queued without a buffer, and the datagram is fetched when it completes. `activecnt` only
decides about the active flag, and both are left out.
-/
namespace LibuvWorks.Win

/-- How a receive request was completed: with success or `WSAEMSGSIZE`, with an error that an
earlier send has caused, or with another one. -/
inductive RecvCompletion where
  | succeeded : RecvCompletion
  | msgSize : RecvCompletion
  | reset : RecvCompletion
  | failed : RecvCompletion
  deriving DecidableEq

/-- What the nonblocking `WSARecvFrom` returns. -/
inductive RecvFromResult where
  | received : RecvFromResult
  | truncated : RecvFromResult
  | wouldBlock : RecvFromResult
  | reset : RecvFromResult
  | failed : RecvFromResult
  deriving DecidableEq

/-- No function of the handle runs, or one is in `alloc_cb`, in `recv_cb`, or in the callback of a
send. -/
inductive UdpRecvPhase where
  | idle : UdpRecvPhase
  | alloc : UdpRecvPhase
  | recvCb : UdpRecvPhase
  | sendCb : UdpRecvPhase
  deriving DecidableEq

def UdpRecvPhase.processed : UdpRecvPhase → ℕ
  | .idle => 0
  | _ => 1

/-- What is recorded: the calls of the user and those of `recv_cb`. -/
inductive RecvEntry where
  | start : RecvEntry
  | stop : RecvEntry
  | close : RecvEntry
  | called : RecvEntry
  deriving DecidableEq

/-- The receiving side of `uv_udp_t`; `sends` counts its send requests and `endgames` the calls of
`uv__handle_close`. The log has the latest entry first. -/
structure UdpRecv where
  reading : Bool
  readPending : Bool
  zeroRead : Bool
  closing : Bool
  endgameQueued : Bool
  closed : Bool
  syncBypass : Bool
  reqsPending : ℕ
  recvReq : RecvReq
  sends : ℕ
  endgames : ℕ
  phase : UdpRecvPhase
  log : List RecvEntry

namespace UdpRecv

variable (s : UdpRecv)

def uvWantEndgame : UdpRecv := { s with endgameQueued := true }

/-- `DECREASE_PENDING_REQ_COUNT` at the end of a function. -/
def decreasePending : Option UdpRecv :=
  if s.reqsPending = 0 then none
  else
    let s := { s with reqsPending := s.reqsPending - 1, phase := .idle }
    some (if s.closing ∧ s.reqsPending = 0 then s.uvWantEndgame else s)

def uvUdpQueueRecv (outcome : RecvOutcome) : Option UdpRecv :=
  if s.reading = false ∨ s.readPending then none
  else
    let s := { s with zeroRead := true, reqsPending := s.reqsPending + 1 }
    if outcome = .failed then some { s with recvReq := s.recvReq.insert }
    else
      let s := { s with readPending := true }
      if outcome = .succeeded ∧ s.syncBypass then some { s with recvReq := s.recvReq.insert }
      else some { s with recvReq := s.recvReq.submit }

/-- `uv__udp_recv_start`; `bound` says that `uv_udp_maybe_bind` succeeds. -/
def uvUdpRecvStart (bound : Bool) (outcome : RecvOutcome) : Option UdpRecv :=
  if s.reading then some s
  else if bound = false then some s
  else
    let s := { s with reading := true, log := .start :: s.log }
    if s.readPending = false then s.uvUdpQueueRecv outcome else some s

def uvUdpRecvStop : UdpRecv := { s with reading := false }

def uvUdpClose : Option UdpRecv :=
  if s.closing then none
  else
    let s := { s.uvUdpRecvStop with closing := true, log := .close :: s.log }
    some (if s.reqsPending = 0 then s.uvWantEndgame else s)

def uvUdpEndgame : Option UdpRecv :=
  let s := { s with endgameQueued := false }
  if s.closing ∧ s.reqsPending = 0 then
    if s.closed then none else some { s with closed := true, endgames := s.endgames + 1 }
  else some s

/-! ### Processing -/

/-- The code at `done` of `uv_process_udp_recv_req`. -/
def atDone (outcome : RecvOutcome) : Option UdpRecv :=
  if s.reading ∧ s.readPending = false then s.uvUdpQueueRecv outcome >>= decreasePending
  else s.decreasePending

/-- `recv_cb` is called. -/
def callRecv : UdpRecv := { s with phase := .recvCb, log := .called :: s.log }

/-- `uv_process_udp_recv_req` up to its first callback. -/
def uvProcessUdpRecvReq (completion : RecvCompletion) (outcome : RecvOutcome) : Option UdpRecv :=
  let s := { s with recvReq := s.recvReq.take, readPending := false }
  match completion with
  | .failed => if s.reading then some s.uvUdpRecvStop.callRecv else s.atDone outcome
  | completion =>
    if completion = .reset ∧ s.zeroRead = false then s.atDone outcome
    else if s.zeroRead = false then some s.callRecv
    else if s.reading then some { s with phase := .alloc }
    else s.atDone outcome

/-- What follows after `alloc_cb` has given `len` bytes. -/
def recvFrom (len : ℕ) (result : RecvFromResult) : UdpRecv :=
  if len = 0 then s.callRecv
  else if result = .failed then s.uvUdpRecvStop.callRecv
  else s.callRecv

/-- A callback returns. -/
def returned (outcome : RecvOutcome) : Option UdpRecv :=
  match s.phase with
  | .recvCb => s.atDone outcome
  | _ => s.decreasePending

/-! ### Events -/

/-- The kernel completes the receive request, the loop handles it, a callback returns, a send begins
or is handled, the endgame runs, or the user calls. -/
inductive Event where
  | arrive : Event
  | process (completion : RecvCompletion) (outcome : RecvOutcome) : Event
  | buffer (len : ℕ) (result : RecvFromResult) : Event
  | returned (outcome : RecvOutcome) : Event
  | send : Event
  | sendDone : Event
  | endgame : Event
  | recvStart (bound : Bool) (outcome : RecvOutcome) : Event
  | recvStop : Event
  | close : Event

/-- The events that can happen. The user calls from every callback, and outside of all. -/
def Enabled : Event → Prop
  | .arrive => 0 < s.recvReq.kernel
  | .process _ _ => s.phase = .idle ∧ 0 < s.recvReq.queued
  | .buffer _ _ => s.phase = .alloc
  | .returned _ => s.phase = .recvCb ∨ s.phase = .sendCb
  | .send => s.closing = false
  | .sendDone => s.phase = .idle ∧ 0 < s.sends
  | .endgame => s.phase = .idle ∧ s.endgameQueued = true
  | .recvStart _ _ => s.closing = false
  | .recvStop => True
  | .close => s.closing = false

instance (e : Event) : Decidable (s.Enabled e) := by
  cases e <;> unfold Enabled <;> infer_instance

def next : Event → Option UdpRecv
  | .arrive => some { s with recvReq := s.recvReq.arrive }
  | .process completion outcome => s.uvProcessUdpRecvReq completion outcome
  | .buffer len result => some (s.recvFrom len result)
  | .returned outcome => s.returned outcome
  | .send => some { s with reqsPending := s.reqsPending + 1, sends := s.sends + 1 }
  | .sendDone => some { s with sends := s.sends - 1, phase := .sendCb }
  | .endgame => s.uvUdpEndgame
  | .recvStart bound outcome => s.uvUdpRecvStart bound outcome
  | .recvStop => some { s.uvUdpRecvStop with log := .stop :: s.log }
  | .close => s.uvUdpClose

def step (e : Event) : Option UdpRecv := if s.Enabled e then s.next e else none

def Step (s : UdpRecv) (e : Event) (t : UdpRecv) : Prop := s.step e = some t

structure Init (s : UdpRecv) : Prop where
  reading : s.reading = false
  readPending : s.readPending = false
  closing : s.closing = false
  endgameQueued : s.endgameQueued = false
  closed : s.closed = false
  reqsPending : s.reqsPending = 0
  recvReq : s.recvReq = ⟨0, 0⟩
  sends : s.sends = 0
  endgames : s.endgames = 0
  phase : s.phase = .idle
  log : s.log = []

end UdpRecv

end LibuvWorks.Win

/-!
## The receive request is out once, and nothing is received after a stop

A receive call that fails at once leaves its request in the pending queue without the flag, so it
may be queued again. And `uv_process_udp_recv_req` does not look again whether it still is to
receive when `alloc_cb` has returned.
-/
namespace LibuvWorks.Win.UdpRecv

open History Transition

variable {s t : UdpRecv} {e : Event} {outcome : RecvOutcome} {processed : ℕ} {log : List RecvEntry}

/-- The last call of the user was to start. -/
def permitted : List RecvEntry → Bool
  | [] => false
  | .start :: _ => true
  | .stop :: _ => false
  | .close :: _ => false
  | .called :: older => permitted older

/-- `recv_cb` is called while the user receives. -/
def Obeys (entry : RecvEntry) (older : List RecvEntry) : Prop :=
  entry = .called → permitted older = true

/-- The flags, the counters and the record of a handle; `processed` requests are being handled. -/
structure Balanced (s : UdpRecv) (processed : ℕ) : Prop where
  once : s.recvReq.outstanding ≤ 1
  pending : s.readPending = true → s.recvReq.outstanding = 1
  zeroRead : s.recvReq.outstanding ≠ 0 → s.zeroRead = true
  reqs : s.reqsPending = s.recvReq.outstanding + s.sends + processed
  closing : s.closing = true → s.reading = false
  queued : s.endgameQueued = true → s.closing = true ∧ s.reqsPending = 0 ∧ s.closed = false
  closed : s.closed = true → s.closing = true ∧ s.reqsPending = 0
  endgames : s.endgames = if s.closed then 1 else 0
  endgame : s.closing = true → s.reqsPending = 0 → s.endgameQueued = true ∨ s.closed = true
  permitted : s.reading = true → permitted s.log = true
  obeys : Justified Obeys s.log

/-- The request is in the queue for an error of its receive call, which the flag does not show. -/
def Unflagged (s : UdpRecv) : Prop := s.recvReq.outstanding ≠ 0 ∧ s.readPending = false

instance (s : UdpRecv) : Decidable s.Unflagged := inferInstanceAs (Decidable (_ ∧ _))

/-- What the handle asks of its user: receiving is not started again while a request waits that has
failed at once, and `alloc_cb` does not stop it. -/
def Careful (s : UdpRecv) : Event → Prop
  | .recvStart bound _ => s.reading = false → bound = true → ¬ s.Unflagged
  | .returned _ => s.phase = .recvCb → s.reading = true → ¬ s.Unflagged
  | .buffer _ _ => s.reading = true
  | _ => True

instance (s : UdpRecv) (e : Event) : Decidable (Careful s e) := by
  cases e <;> dsimp only [Careful] <;> infer_instance

namespace Balanced

theorem uvUdpQueueRecv (h : Balanced s processed) (hreading : s.reading = true)
    (hpending : s.readPending = false) (hout : s.recvReq.outstanding = 0) (outcome : RecvOutcome) :
    ∃ t, s.uvUdpQueueRecv outcome = some t ∧ Balanced t processed ∧ t.phase = s.phase := by
  have hreqs := h.reqs
  have hclosing : s.closing = false := by
    by_contra hset
    cases hreading.symm.trans (h.closing (by simpa using hset))
  have hkeep : ∀ r : RecvReq, r.outstanding = 1 → ∀ readPending, Balanced { s with
      zeroRead := true, reqsPending := s.reqsPending + 1, recvReq := r, readPending } processed := by
    intro r hr readPending
    exact { h with
      once := Nat.le_of_eq hr
      pending := fun _ => hr
      zeroRead := fun _ => rfl
      reqs := by
        change s.reqsPending + 1 = r.outstanding + s.sends + processed
        omega
      queued := fun habs => by cases hclosing.symm.trans (h.queued habs).1
      closed := fun habs => by cases hclosing.symm.trans (h.closed habs).1
      endgame := fun habs => by cases hclosing.symm.trans habs }
  have hsubmit : s.recvReq.submit.outstanding = 1 := by rw [RecvReq.outstanding_submit, hout]
  have hinsert : s.recvReq.insert.outstanding = 1 := by rw [RecvReq.outstanding_insert, hout]
  unfold UdpRecv.uvUdpQueueRecv
  rw [if_neg (by simp [hreading, hpending])]
  dsimp only
  split_ifs with hfailed hsync
  · exact ⟨_, rfl, hkeep _ hinsert _, rfl⟩
  · exact ⟨_, rfl, hkeep _ hinsert _, rfl⟩
  · exact ⟨_, rfl, hkeep _ hsubmit _, rfl⟩

theorem setPhase (h : Balanced s processed) (phase : UdpRecvPhase) :
    Balanced { s with phase } processed := { h with }

def Rests (t : UdpRecv) : Prop := Balanced t t.phase.processed

theorem decreasePending (h : Balanced s 1) : ∃ t, s.decreasePending = some t ∧ Rests t := by
  have hreqs := h.reqs
  have hpos : s.reqsPending ≠ 0 := by omega
  have hclosed : s.closed = false := by
    by_contra hset
    exact hpos (h.closed (by simpa using hset)).2
  have hqueued : s.endgameQueued = false := by
    by_contra hset
    exact hpos (h.queued (by simpa using hset)).2.1
  have hless : s.reqsPending - 1 = s.recvReq.outstanding + s.sends + 0 := by omega
  unfold UdpRecv.decreasePending
  rw [if_neg hpos]
  dsimp only
  split_ifs with hlast
  · refine ⟨_, rfl, ?_⟩
    exact { h with
      reqs := hless
      queued := fun _ => ⟨hlast.1, hlast.2, hclosed⟩
      closed := fun habs => by cases hclosed.symm.trans habs
      endgame := fun _ _ => .inl rfl }
  · refine ⟨_, rfl, ?_⟩
    exact { h with
      reqs := hless
      queued := fun habs => by cases hqueued.symm.trans habs
      closed := fun habs => by cases hclosed.symm.trans habs
      endgame := fun hclosing hzero => absurd ⟨hclosing, hzero⟩ hlast }

section

variable (h : Balanced s processed)
include h

theorem record {entry : RecvEntry} (hentry : entry ≠ .called)
    (hpermitted : s.reading = true → UdpRecv.permitted (entry :: s.log) = true) :
    Balanced { s with log := entry :: s.log } processed := by
  have hobeys : Justified Obeys (entry :: s.log) :=
    justified_cons.mpr ⟨fun habs => absurd habs hentry, h.obeys⟩
  exact { h with permitted := hpermitted, obeys := hobeys }

theorem uvUdpRecvStop : Balanced s.uvUdpRecvStop processed :=
  { h with closing := fun _ => rfl, permitted := nofun }

theorem uvUdpRecvStart {bound : Bool} (hclosing : s.closing = false)
    (hcareful : s.reading = false → bound = true → ¬ s.Unflagged) :
    ∃ t, s.uvUdpRecvStart bound outcome = some t ∧ Balanced t processed ∧ t.phase = s.phase := by
  unfold UdpRecv.uvUdpRecvStart
  by_cases hreading : s.reading = true
  · rw [if_pos hreading]
    exact ⟨s, rfl, h, rfl⟩
  · rw [if_neg hreading]
    by_cases hbound : bound = false
    · rw [if_pos hbound]
      exact ⟨s, rfl, h, rfl⟩
    · rw [if_neg hbound]
      have hobeys : Justified Obeys (.start :: s.log) := justified_cons.mpr ⟨nofun, h.obeys⟩
      have hstarted : Balanced { s with reading := true, log := .start :: s.log } processed :=
        { h with
          closing := fun habs => by cases hclosing.symm.trans habs
          permitted := fun _ => rfl
          obeys := hobeys }
      dsimp only
      split_ifs with hpending
      · apply hstarted.uvUdpQueueRecv rfl hpending
        by_contra hout
        exact hcareful (by simpa using hreading) (by simpa using hbound) ⟨hout, hpending⟩
      · exact ⟨_, rfl, hstarted, rfl⟩

theorem uvUdpClose (hclosing : s.closing = false) :
    ∃ t, s.uvUdpClose = some t ∧ Balanced t processed ∧ t.phase = s.phase := by
  have hclosed : s.closed = false := by
    by_contra hset
    cases hclosing.symm.trans (h.closed (by simpa using hset)).1
  have hqueued : s.endgameQueued = false := by
    by_contra hset
    cases hclosing.symm.trans (h.queued (by simpa using hset)).1
  have hobeys : Justified Obeys (.close :: s.log) := justified_cons.mpr ⟨nofun, h.obeys⟩
  unfold UdpRecv.uvUdpClose
  rw [if_neg (by simp [hclosing])]
  dsimp only
  split_ifs with hzero
  · refine ⟨_, rfl, ?_, rfl⟩
    exact { h with
      closing := fun _ => rfl
      queued := fun _ => ⟨rfl, hzero, hclosed⟩
      closed := fun habs => by cases hclosed.symm.trans habs
      endgame := fun _ _ => .inl rfl
      permitted := nofun
      obeys := hobeys }
  · refine ⟨_, rfl, ?_, rfl⟩
    exact { h with
      closing := fun _ => rfl
      queued := fun habs => by cases hqueued.symm.trans habs
      closed := fun habs => by cases hclosed.symm.trans habs
      endgame := fun _ habs => absurd habs hzero
      permitted := nofun
      obeys := hobeys }

theorem uvUdpEndgame (hqueued : s.endgameQueued = true) :
    ∃ t, s.uvUdpEndgame = some t ∧ Balanced t processed ∧ t.phase = s.phase := by
  obtain ⟨hclosing, hzero, hclosed⟩ := h.queued hqueued
  have hendgames := h.endgames
  rw [hclosed, if_neg Bool.false_ne_true] at hendgames
  unfold UdpRecv.uvUdpEndgame
  dsimp only
  rw [if_pos ⟨hclosing, hzero⟩, if_neg (by simp [hclosed])]
  refine ⟨_, rfl, ?_, rfl⟩
  exact { h with
    queued := nofun
    closed := fun _ => ⟨hclosing, hzero⟩
    endgames := congrArg (· + 1) hendgames
    endgame := fun _ _ => .inr rfl }

end

/-! ### Processing -/

theorem atDone (h : Balanced s 1) (hcareful : s.reading = true → ¬ s.Unflagged)
    (outcome : RecvOutcome) :
    ∃ t, s.atDone outcome = some t ∧ Rests t := by
  unfold UdpRecv.atDone
  split_ifs with hqueue
  · have hout : s.recvReq.outstanding = 0 := by
      by_contra hne
      exact hcareful hqueue.1 ⟨hne, hqueue.2⟩
    obtain ⟨t, ht, hbalanced, -⟩ := h.uvUdpQueueRecv hqueue.1 hqueue.2 hout outcome
    rw [ht]
    exact hbalanced.decreasePending
  · exact h.decreasePending

theorem callRecv (h : Balanced s 1) (hpermitted : UdpRecv.permitted s.log = true) :
    Rests s.callRecv := by
  have hobeys : Justified Obeys (.called :: s.log) :=
    justified_cons.mpr ⟨fun _ => hpermitted, h.obeys⟩
  exact { h with permitted := fun _ => hpermitted, obeys := hobeys }

theorem taken (h : Balanced s 0) (hqueued : 0 < s.recvReq.queued) :
    Balanced { s with recvReq := s.recvReq.take, readPending := false } 1 ∧
      s.recvReq.take.outstanding = 0 ∧ s.zeroRead = true := by
  have htake := s.recvReq.outstanding_take hqueued
  have honce := h.once
  have hreqs := h.reqs
  have hzero : s.recvReq.take.outstanding = 0 := by omega
  refine ⟨?_, hzero, h.zeroRead (by omega)⟩
  exact { h with
    once := by
      change s.recvReq.take.outstanding ≤ 1
      omega
    pending := nofun
    zeroRead := fun habs => absurd hzero habs
    reqs := by
      change s.reqsPending = s.recvReq.take.outstanding + s.sends + 1
      omega }

theorem uvProcessUdpRecvReq {completion : RecvCompletion} (h : Balanced s 0)
    (hqueued : 0 < s.recvReq.queued) :
    ∃ t, s.uvProcessUdpRecvReq completion outcome = some t ∧ Rests t := by
  obtain ⟨htaken, hout, hzero⟩ := h.taken hqueued
  have hdone := htaken.atDone (fun _ hunflagged => hunflagged.1 hout) outcome
  have hnonzero : ¬ s.zeroRead = false := by simp [hzero]
  have hsuccess : ∃ t, (if s.reading then
      some { s with recvReq := s.recvReq.take, readPending := false, phase := .alloc }
      else { s with recvReq := s.recvReq.take, readPending := false }.atDone outcome) = some t ∧
        Rests t := by
    split_ifs
    · exact ⟨_, rfl, htaken.setPhase .alloc⟩
    · exact hdone
  unfold UdpRecv.uvProcessUdpRecvReq
  cases completion with
  | failed =>
    dsimp only
    split_ifs with hreading
    · exact ⟨_, rfl, htaken.uvUdpRecvStop.callRecv (h.permitted hreading)⟩
    · exact hdone
  | reset | succeeded | msgSize =>
    dsimp only
    rw [if_neg (fun habs => hnonzero habs.2), if_neg hnonzero]
    exact hsuccess

theorem recvFrom {len : ℕ} {result : RecvFromResult} (h : Balanced s 1)
    (hreading : s.reading = true) :
    Rests (s.recvFrom len result) := by
  have hpermitted := h.permitted hreading
  unfold UdpRecv.recvFrom
  split_ifs
  · exact h.callRecv hpermitted
  · exact h.uvUdpRecvStop.callRecv hpermitted
  · exact h.callRecv hpermitted

/-! ### Every run -/

theorem rests_of_same (h : Balanced t s.phase.processed) (hphase : t.phase = s.phase) :
    Rests t := by
  unfold Rests
  rw [hphase]
  exact h

theorem next (h : Rests s) (henabled : s.Enabled e) (hcareful : Careful s e) :
    ∃ t, s.next e = some t ∧ Rests t := by
  cases e with
  | arrive =>
    have harrive := s.recvReq.outstanding_arrive henabled
    refine ⟨_, rfl, ?_⟩
    exact { h with
      once := harrive ▸ h.once
      pending := fun habs => harrive.trans (h.pending habs)
      zeroRead := fun habs => h.zeroRead (harrive ▸ habs)
      reqs := by
        change s.reqsPending = s.recvReq.arrive.outstanding + s.sends + s.phase.processed
        rw [harrive]
        exact h.reqs }
  | process completion outcome =>
    obtain ⟨hidle, hqueued⟩ := henabled
    unfold Rests at h
    rw [hidle] at h
    exact Balanced.uvProcessUdpRecvReq h hqueued
  | buffer len result =>
    unfold Rests at h
    rw [henabled] at h
    exact ⟨_, rfl, Balanced.recvFrom h hcareful⟩
  | returned outcome =>
    unfold Rests at h
    change ∃ t, s.returned outcome = some t ∧ Rests t
    unfold UdpRecv.returned
    rcases henabled with hphase | hphase
    · rw [hphase] at h ⊢
      exact Balanced.atDone h (hcareful hphase) outcome
    · rw [hphase] at h ⊢
      exact Balanced.decreasePending h
  | send =>
    have hreqs := h.reqs
    have hopen : ¬ s.closing = true := by simp [show s.closing = false from henabled]
    refine ⟨_, rfl, ?_⟩
    exact { h with
      reqs := by
        change s.reqsPending + 1 = s.recvReq.outstanding + (s.sends + 1) + s.phase.processed
        omega
      queued := fun habs => absurd (h.queued habs).1 hopen
      closed := fun habs => absurd (h.closed habs).1 hopen
      endgame := fun habs => absurd habs hopen }
  | sendDone =>
    obtain ⟨hidle, hsends⟩ := henabled
    have hreqs := h.reqs
    rw [hidle] at hreqs
    refine ⟨_, rfl, ?_⟩
    exact { h with
      reqs := by
        change s.reqsPending = s.recvReq.outstanding + (s.sends - 1) + 1
        change s.reqsPending = s.recvReq.outstanding + s.sends + 0 at hreqs
        omega }
  | endgame =>
    obtain ⟨t, ht, hbalanced, hphase⟩ := Balanced.uvUdpEndgame h henabled.2
    exact ⟨t, ht, rests_of_same hbalanced hphase⟩
  | recvStart bound outcome =>
    obtain ⟨t, ht, hbalanced, hphase⟩ := Balanced.uvUdpRecvStart h henabled hcareful
    exact ⟨t, ht, rests_of_same hbalanced hphase⟩
  | recvStop =>
    exact ⟨_, rfl, (Balanced.uvUdpRecvStop h).record nofun nofun⟩
  | close =>
    obtain ⟨t, ht, hbalanced, hphase⟩ := Balanced.uvUdpClose h henabled
    exact ⟨t, ht, rests_of_same hbalanced hphase⟩

theorem init (h : Init s) : Rests s := by
  unfold Rests
  rw [h.phase]
  exact {
    once := by
      rw [h.recvReq]
      exact Nat.zero_le 1
    pending := fun habs => by cases h.readPending.symm.trans habs
    zeroRead := fun habs => by
      rw [h.recvReq] at habs
      exact absurd rfl habs
    reqs := by
      rw [h.reqsPending, h.recvReq, h.sends]
      rfl
    closing := fun habs => by cases h.closing.symm.trans habs
    queued := fun habs => by cases h.endgameQueued.symm.trans habs
    closed := fun habs => by cases h.closed.symm.trans habs
    endgames := by
      rw [h.endgames, h.closed]
      rfl
    endgame := fun habs => by cases h.closing.symm.trans habs
    permitted := fun habs => by cases h.reading.symm.trans habs
    obeys := by
      rw [h.log]
      exact justified_nil }

theorem of_reachable (h : Reachable Init (Guarded Careful Step) s) : Rests s :=
  h.invariant_of_guarded (fun _ => init) fun _ _ => next

end Balanced

/-- The request is out once and counted once, `recv_cb` is called while the user receives, no
assertion fails, and a closed handle has its endgame once, when no request is left. -/
theorem udpRecv_balanced (h : Reachable Init (Guarded Careful Step) s) :
    s.recvReq.outstanding ≤ 1 ∧
    s.reqsPending = s.recvReq.outstanding + s.sends + s.phase.processed ∧
    Justified Obeys s.log ∧
    s.endgames = (if s.closed then 1 else 0) ∧
    (s.closed = true → s.closing = true ∧ s.reqsPending = 0) ∧
    (s.closing = true → s.reqsPending = 0 → s.endgameQueued = true ∨ s.closed = true) ∧
    ∀ e, s.Enabled e → Careful s e → ∃ t, s.next e = some t := by
  have hs := Balanced.of_reachable h
  refine ⟨hs.once, hs.reqs, hs.obeys, hs.endgames, hs.closed, hs.endgame,
    fun e henabled hcareful => ?_⟩
  obtain ⟨t, ht, -⟩ := Balanced.next hs henabled hcareful
  exact ⟨t, ht⟩

/-- A handle on a socket that bypasses the completion port. -/
def fresh : UdpRecv where
  reading := false
  readPending := false
  zeroRead := false
  closing := false
  endgameQueued := false
  closed := false
  syncBypass := true
  reqsPending := 0
  recvReq := ⟨0, 0⟩
  sends := 0
  endgames := 0
  phase := .idle
  log := []

theorem fresh_init : Init fresh := ⟨rfl, rfl, rfl, rfl, rfl, rfl, rfl, rfl, rfl, rfl, rfl⟩

/-- A datagram is received, and its callback closes the handle. -/
def closedRun : Option UdpRecv :=
  [Event.recvStart true .pending, .arrive, .process .succeeded .pending, .buffer 100 .received,
    .close,
    .returned .pending, .endgame].foldlM (fun s e => if Careful s e then s.step e else none) fresh

theorem closedRun_isSome : closedRun.isSome = true := by
  rfl

theorem udpRecv_balanced_closed : (closedRun.get closedRun_isSome).endgames = 1 := by
  have hrun : Reachable Init (Guarded Careful Step) (closedRun.get closedRun_isSome) :=
    .of_foldlM_if (.init fresh_init) (Option.some_get closedRun_isSome).symm
  exact (udpRecv_balanced hrun).2.2.2.1.trans (by decide)

/-- The first receive call fails at once, and receiving is stopped and started again. -/
def failedRun : Option UdpRecv :=
  [Event.recvStart true .failed, .recvStop, .recvStart true .pending].foldlM step fresh

theorem failedRun_isSome : failedRun.isSome = true := by
  rfl

/-- `alloc_cb` stops receiving. -/
def stoppedRun : Option UdpRecv :=
  [Event.recvStart true .pending, .arrive, .process .succeeded .pending, .recvStop,
    .buffer 100 .received].foldlM step fresh

theorem stoppedRun_isSome : stoppedRun.isSome = true := by
  rfl

/-- The request is submitted while it is in the pending queue, or `recv_cb` is called after a
stop. -/
theorem received_twice : (∃ s, Reachable Init Step s ∧ s.recvReq = ⟨1, 1⟩) ∧
    ∃ s, Reachable Init Step s ∧ s.log = [.called, .stop, .start] := by
  constructor
  · refine ⟨failedRun.get failedRun_isSome, ?_, by decide⟩
    exact .of_foldlM (.init fresh_init) (Option.some_get failedRun_isSome).symm
  · refine ⟨stoppedRun.get stoppedRun_isSome, ?_, by decide⟩
    exact .of_foldlM (.init fresh_init) (Option.some_get stoppedRun_isSome).symm

end LibuvWorks.Win.UdpRecv
