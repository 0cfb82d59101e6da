import LibuvWorks.Lib.Transition
import LibuvWorks.Lib.History
import Mathlib.Algebra.BigOperators.Group.List.Basic
import Mathlib.Algebra.GroupWithZero.Nat

/-!
# Writing, shutting down and closing a tcp connection: `win/tcp.c`

`uv_tcp_endgame` carries out `uv_shutdown` as well as `uv_close`, and which of them is told by the
two counters of the handle. A callback is a phase of the handle: other calls may come before it
returns. `activecnt`, the sockets and the wait handles are left out.
-/
open List

namespace LibuvWorks.Win

/-- A write that is not yet processed, with its `u.io.queued_bytes`. -/
structure TcpWriteReq (ρ : Type*) where
  req : ρ
  queuedBytes : ℕ
  deriving DecidableEq

/-- What `WSASend` returns for an overlapped request. -/
inductive SendOutcome where
  | succeeded : SendOutcome
  | pending : SendOutcome
  | failed : SendOutcome
  deriving DecidableEq

/-- No function of the handle runs, or one is in a callback: of a write, of the shutdown request, of
a request of another kind, or `close_cb`. -/
inductive TcpWritePhase where
  | idle : TcpWritePhase
  | writeCb : TcpWritePhase
  | shutdownCb : TcpWritePhase
  | otherCb : TcpWritePhase
  | closeCb : TcpWritePhase
  deriving DecidableEq

def TcpWritePhase.writing : TcpWritePhase → ℕ
  | .writeCb => 1
  | _ => 0

/-- The requests that are processed where a callback runs. -/
def TcpWritePhase.processed : TcpWritePhase → ℕ
  | .idle => 0
  | .closeCb => 0
  | _ => 1

/-- What has happened to the handle. `sdSend` is the call of `shutdown` that `uv_shutdown` asked
for, and `shutdownCb` has the error before its translation. -/
inductive TcpWriteEntry (ρ : Type*) where
  | wrote (r : ρ) : TcpWriteEntry ρ
  | writeCb (r : ρ) : TcpWriteEntry ρ
  | shutdown : TcpWriteEntry ρ
  | sdSend : TcpWriteEntry ρ
  | shutdownCb (err : ℕ) : TcpWriteEntry ρ
  | close : TcpWriteEntry ρ
  | closeCb : TcpWriteEntry ρ
  deriving DecidableEq

/-- The writing side of `uv_tcp_t`. `kernel` has the writes that the system has not completed and
`pendingReqs` those on the way to the loop; `others` counts the requests of other kinds. -/
structure TcpWriter (ρ : Type*) where
  connection : Bool
  writable : Bool
  shutdownReq : Bool
  closing : Bool
  closed : Bool
  endgameQueued : Bool
  syncBypass : Bool
  emulateIocp : Bool
  kernel : List (TcpWriteReq ρ)
  pendingReqs : List (TcpWriteReq ρ)
  others : ℕ
  writeQueueSize : ℕ
  writeReqsPending : ℕ
  reqsPending : ℕ
  phase : TcpWritePhase
  log : List (TcpWriteEntry ρ)

/-- `ERROR_OPERATION_ABORTED`, which is translated to `UV_ECANCELED`. -/
def errorOperationAborted : ℕ := 995

namespace TcpWriter

variable {ρ : Type*} (s : TcpWriter ρ)

/-- `uv_want_endgame` -/
def wantEndgame : TcpWriter ρ := { s with endgameQueued := true }

/-- `DECREASE_PENDING_REQ_COUNT` at the end of a function. -/
def decreasePending : Option (TcpWriter ρ) :=
  if s.reqsPending = 0 then none
  else
    let s := { s with reqsPending := s.reqsPending - 1, phase := .idle }
    some (if s.closing ∧ s.reqsPending = 0 then s.wantEndgame else s)

/-- `uv_insert_pending_req` -/
def insertPendingReq (w : TcpWriteReq ρ) : TcpWriter ρ :=
  { s with pendingReqs := w :: s.pendingReqs }

/-- `uv_tcp_write` of buffers with these lengths; `registered` is what `RegisterWaitForSingleObject`
returns. -/
def uvTcpWrite (r : ρ) (bufs : List ℕ) (outcome : SendOutcome) (registered : Bool) : TcpWriter ρ :=
  let s := { s with
    reqsPending := s.reqsPending + 1
    writeReqsPending := s.writeReqsPending + 1
    log := .wrote r :: s.log }
  if outcome = .succeeded ∧ s.syncBypass then s.insertPendingReq ⟨r, 0⟩
  else if outcome = .failed then s.insertPendingReq ⟨r, 0⟩
  else
    let s := { s with writeQueueSize := s.writeQueueSize + bufs.sum }
    if s.emulateIocp ∧ registered = false then s.insertPendingReq ⟨r, bufs.sum⟩
    else { s with kernel := ⟨r, bufs.sum⟩ :: s.kernel }

def uvWrite (r : ρ) (bufs : List ℕ) (outcome : SendOutcome) (registered : Bool) : TcpWriter ρ :=
  if s.writable = false then s else s.uvTcpWrite r bufs outcome registered

def uvShutdown : TcpWriter ρ :=
  if s.writable = false then s
  else
    { s with
      writable := false
      shutdownReq := true
      reqsPending := s.reqsPending + 1
      log := .shutdown :: s.log }.wantEndgame

/-- `uv_tcp_close`; `none` is the assertion of `uv__handle_closing`. -/
def uvTcpClose : Option (TcpWriter ρ) :=
  if s.closing then none
  else
    let s := { s with writable := false, closing := true, log := .close :: s.log }
    some (if s.reqsPending = 0 then s.wantEndgame else s)

/-- `uv_process_tcp_write_req` up to the callback. -/
def uvProcessTcpWriteReq [DecidableEq ρ] (w : TcpWriteReq ρ) : Option (TcpWriter ρ) :=
  if s.writeQueueSize < w.queuedBytes then none
  else
    some { s with
      pendingReqs := s.pendingReqs.erase w
      writeQueueSize := s.writeQueueSize - w.queuedBytes
      phase := .writeCb
      log := .writeCb w.req :: s.log }

/-- `uv_process_tcp_write_req` after the callback. -/
def writeCbReturned : Option (TcpWriter ρ) :=
  let s := { s with writeReqsPending := s.writeReqsPending - 1 }
  if s.shutdownReq ∧ s.writeReqsPending = 0 then s.wantEndgame.decreasePending
  else s.decreasePending

/-- `uv_tcp_endgame` up to the callback; `err` is the error of `shutdown`. -/
def uvTcpEndgame (err : ℕ) : Option (TcpWriter ρ) :=
  let s := { s with endgameQueued := false }
  if s.connection ∧ s.shutdownReq ∧ s.writeReqsPending = 0 then
    if s.closing then
      some { s with phase := .shutdownCb, log := .shutdownCb errorOperationAborted :: s.log }
    else some { s with phase := .shutdownCb, log := .shutdownCb err :: .sdSend :: s.log }
  else if s.closing ∧ s.reqsPending = 0 then
    if s.closed then none
    else some { s with closed := true, phase := .closeCb, log := .closeCb :: s.log }
  else some s

/-- A callback returns to the function that has called it. -/
def returned : Option (TcpWriter ρ) :=
  match s.phase with
  | .idle => none
  | .writeCb => s.writeCbReturned
  | .shutdownCb => { s with shutdownReq := false }.decreasePending
  | .otherCb => s.decreasePending
  | .closeCb => some { s with phase := .idle }

inductive Event (ρ : Type*) where
  | write (r : ρ) (bufs : List ℕ) (outcome : SendOutcome) (registered : Bool) : Event ρ
  | shutdown : Event ρ
  | close : Event ρ
  /-- A request of another kind is queued. -/
  | reqBegin : Event ρ
  /-- The system has completed a write. -/
  | complete (w : TcpWriteReq ρ) : Event ρ
  | process (w : TcpWriteReq ρ) : Event ρ
  /-- A request of another kind is processed. -/
  | reqDone : Event ρ
  | returned : Event ρ
  /-- `uv_process_endgames` comes to the handle. -/
  | endgame (err : ℕ) : Event ρ

def outstanding : List (TcpWriteReq ρ) := s.kernel ++ s.pendingReqs

/-- A request is written with when it is not out, a handle is closed once, and requests and endgames
are processed where no callback of the handle runs. -/
def Enabled : Event ρ → Prop
  | .write r _ _ _ => ∀ w ∈ s.outstanding, w.req ≠ r
  | .shutdown => True
  | .close => s.closing = false
  | .reqBegin => s.closing = false
  | .complete w => w ∈ s.kernel
  | .process w => s.phase = .idle ∧ w ∈ s.pendingReqs
  | .reqDone => s.phase = .idle ∧ 0 < s.others
  | .returned => s.phase ≠ .idle
  | .endgame _ => s.phase = .idle ∧ s.endgameQueued = true

instance [DecidableEq ρ] (e : Event ρ) : Decidable (s.Enabled e) := by
  cases e <;> unfold Enabled <;> infer_instance

variable [DecidableEq ρ]

def next : Event ρ → Option (TcpWriter ρ)
  | .write r bufs outcome registered => some (s.uvWrite r bufs outcome registered)
  | .shutdown => some s.uvShutdown
  | .close => s.uvTcpClose
  | .reqBegin => some { s with others := s.others + 1, reqsPending := s.reqsPending + 1 }
  | .complete w => some { s with kernel := s.kernel.erase w, pendingReqs := w :: s.pendingReqs }
  | .process w => s.uvProcessTcpWriteReq w
  | .reqDone => some { s with others := s.others - 1, phase := .otherCb }
  | .returned => s.returned
  | .endgame err => s.uvTcpEndgame err

def step (e : Event ρ) : Option (TcpWriter ρ) := if s.Enabled e then s.next e else none

def Step (s : TcpWriter ρ) (e : Event ρ) (t : TcpWriter ρ) : Prop := s.step e = some t

structure Init (s : TcpWriter ρ) : Prop where
  connection : s.connection = true
  shutdownReq : s.shutdownReq = false
  closing : s.closing = false
  closed : s.closed = false
  endgameQueued : s.endgameQueued = false
  kernel : s.kernel = []
  pendingReqs : s.pendingReqs = []
  others : s.others = 0
  writeQueueSize : s.writeQueueSize = 0
  writeReqsPending : s.writeReqsPending = 0
  reqsPending : s.reqsPending = 0
  phase : s.phase = .idle
  log : s.log = []

end TcpWriter

end LibuvWorks.Win

/-!
## The counters and the history of a tcp connection

As long as `uv_shutdown` or `uv_close` waits for an answer, a request is waited for, or a callback
runs, or the endgame of the handle is queued.
-/
namespace LibuvWorks.Win.TcpWriter

open Transition History

variable {ρ : Type*} [DecidableEq ρ] {s t : TcpWriter ρ} {e : Event ρ}

def Written (log : List (TcpWriteEntry ρ)) : Prop :=
  ∀ r, log.count (.wrote r) = log.count (.writeCb r)

/-- What an entry says about the entries before it. -/
def Obeys : TcpWriteEntry ρ → List (TcpWriteEntry ρ) → Prop
  | .shutdown, older => .shutdown ∉ older ∧ .close ∉ older
  | .sdSend, older => Written older ∧ .shutdown ∈ older ∧ .close ∉ older
  | .shutdownCb err, older => .shutdown ∈ older ∧ (∀ err', .shutdownCb err' ∉ older) ∧
      (.close ∈ older → err = errorOperationAborted) ∧ (.close ∉ older → .sdSend ∈ older)
  | .close, older => .close ∉ older
  | .closeCb, older => .close ∈ older ∧ .closeCb ∉ older ∧ Written older ∧
      (.shutdown ∈ older → ∃ err, .shutdownCb err ∈ older)
  | _, _ => True

def waiting (s : TcpWriter ρ) : Bool := s.shutdownReq && s.phase != .shutdownCb

omit [DecidableEq ρ] in
theorem waiting_eq (hphase : s.phase ≠ .shutdownCb) : s.waiting = s.shutdownReq := by
  rw [waiting, bne_iff_ne.mpr hphase, Bool.and_true]

omit [DecidableEq ρ] in
theorem waiting_false (h : s.shutdownReq = false) : s.waiting = false := by
  rw [waiting, h]
  rfl

/-- What holds of a handle that runs the callbacks of `writing` writes and handles `processed`
requests, these writes among them. -/
structure Consistent (s : TcpWriter ρ) (writing processed : ℕ) : Prop where
  connection : s.connection = true
  size : s.writeQueueSize = (s.outstanding.map TcpWriteReq.queuedBytes).sum
  writes : s.writeReqsPending = s.outstanding.length + writing
  reqs : s.reqsPending = s.outstanding.length + s.others + s.waiting.toNat + processed
  wanted : s.waiting = true → s.writeReqsPending = 0 → s.endgameQueued = true
  ended : s.closing = true → s.reqsPending = 0 → s.closed = false → s.endgameQueued = true
  closed : s.closed = true → s.closing = true ∧ s.reqsPending = 0 ∧ s.endgameQueued = false
  writable : s.writable = true → s.closing = false ∧ .shutdown ∉ s.log
  closing : s.closing = true ↔ .close ∈ s.log
  closeCb : s.closed = true ↔ .closeCb ∈ s.log
  written : ∀ r, s.log.count (.wrote r) =
    s.log.count (.writeCb r) + (s.outstanding.map TcpWriteReq.req).count r
  requested : s.shutdownReq = true ∨ s.phase = .shutdownCb → .shutdown ∈ s.log
  answered : .shutdown ∈ s.log → s.waiting = true ∨ ∃ err, .shutdownCb err ∈ s.log
  unanswered : s.waiting = true → ∀ err, .shutdownCb err ∉ s.log
  obeys : Justified Obeys s.log

namespace Consistent

variable {writing processed : ℕ} {w : TcpWriteReq ρ} {ks ps : List (TcpWriteReq ρ)}

/-! ### The list of writes -/

section

variable (h : Consistent s writing processed)
include h

theorem moved (hperm : (ks ++ ps).Perm s.outstanding) :
    Consistent { s with kernel := ks, pendingReqs := ps } writing processed := by
  refine { h with size := ?_, writes := ?_, reqs := ?_, written := fun r => ?_ }
  · exact h.size.trans (hperm.map _).sum_eq.symm
  · change s.writeReqsPending = (ks ++ ps).length + writing
    rw [hperm.length_eq]
    exact h.writes
  · change s.reqsPending = (ks ++ ps).length + s.others + s.waiting.toNat + processed
    rw [hperm.length_eq]
    exact h.reqs
  · change _ = _ + ((ks ++ ps).map TcpWriteReq.req).count r
    rw [(hperm.map TcpWriteReq.req).count_eq]
    exact h.written r

theorem unshut_of_writable (hwritable : s.writable = true) :
    s.shutdownReq = false ∧ s.phase ≠ .shutdownCb := by
  obtain ⟨-, hshutdown⟩ := h.writable hwritable
  constructor
  · by_contra hset
    exact hshutdown (h.requested (.inl (by simpa using hset)))
  · intro hphase
    exact hshutdown (h.requested (.inr hphase))

theorem shutdown_mem {err : ℕ}
    (hmem : .shutdownCb err ∈ s.log) :
    .shutdown ∈ s.log := by
  obtain ⟨newer, older, hlog, hobeys⟩ := h.obeys.of_mem hmem
  rw [hlog]
  exact mem_append_right _ (mem_cons_of_mem _ hobeys.1)

theorem wrote (hwritable : s.writable = true)
    (hperm : (ks ++ ps).Perm (w :: s.outstanding)) :
    Consistent { s with
      reqsPending := s.reqsPending + 1
      writeReqsPending := s.writeReqsPending + 1
      log := .wrote w.req :: s.log
      writeQueueSize := s.writeQueueSize + w.queuedBytes
      kernel := ks
      pendingReqs := ps } writing processed := by
  have hopen := (h.writable hwritable).1
  have hwrites := h.writes
  have hreqs := h.reqs
  have hsize := h.size
  have hlength : (ks ++ ps).length = s.outstanding.length + 1 := hperm.length_eq
  refine { h with
    size := ?_, writes := ?_, reqs := ?_, wanted := ?_, ended := ?_, closed := ?_, writable := ?_,
    closing := ?_, closeCb := ?_, written := ?_, requested := ?_, answered := ?_, unanswered := ?_,
    obeys := justified_cons.mpr ⟨trivial, h.obeys⟩ }
  · change s.writeQueueSize + w.queuedBytes = ((ks ++ ps).map TcpWriteReq.queuedBytes).sum
    rw [(hperm.map _).sum_eq, map_cons, sum_cons]
    omega
  · change s.writeReqsPending + 1 = (ks ++ ps).length + writing
    omega
  · change s.reqsPending + 1 = (ks ++ ps).length + s.others + s.waiting.toNat + processed
    omega
  · intro hwaiting
    cases (waiting_false (h.unshut_of_writable hwritable).1).symm.trans hwaiting
  · intro hclosing
    cases hopen.symm.trans hclosing
  · intro hclosed
    cases hopen.symm.trans (h.closed hclosed).1
  · exact fun _ => ⟨hopen, by simpa using (h.writable hwritable).2⟩
  · simpa using h.closing
  · simpa using h.closeCb
  · intro r
    change _ = _ + ((ks ++ ps).map TcpWriteReq.req).count r
    have hr := h.written r
    rw [(hperm.map TcpWriteReq.req).count_eq, map_cons]
    simp only [count_cons, beq_iff_eq, TcpWriteEntry.wrote.injEq, reduceCtorEq, if_false]
    omega
  · simpa using h.requested
  · simpa [waiting] using h.answered
  · simpa [waiting] using h.unanswered

theorem uvWrite (r : ρ) (bufs : List ℕ)
    (outcome : SendOutcome) (registered : Bool) :
    Consistent (s.uvWrite r bufs outcome registered) writing processed ∧
      (s.uvWrite r bufs outcome registered).phase = s.phase := by
  unfold TcpWriter.uvWrite
  split_ifs with hwritable
  · exact ⟨h, rfl⟩
  · replace hwritable : s.writable = true := by simpa using hwritable
    unfold uvTcpWrite insertPendingReq
    dsimp only
    split_ifs
    · exact ⟨h.wrote (w := ⟨r, 0⟩) hwritable perm_middle, rfl⟩
    · exact ⟨h.wrote (w := ⟨r, 0⟩) hwritable perm_middle, rfl⟩
    · exact ⟨h.wrote (w := ⟨r, bufs.sum⟩) hwritable perm_middle, rfl⟩
    · exact ⟨h.wrote (w := ⟨r, bufs.sum⟩) hwritable (.refl _), rfl⟩

end

/-! ### The other calls -/

theorem uvShutdown (h : Consistent s writing processed) :
    Consistent s.uvShutdown writing processed ∧ s.uvShutdown.phase = s.phase := by
  unfold TcpWriter.uvShutdown
  split_ifs with hwritable
  · exact ⟨h, rfl⟩
  · replace hwritable : s.writable = true := by simpa using hwritable
    obtain ⟨hopen, hnone⟩ := h.writable hwritable
    obtain ⟨hreq, hphase⟩ := h.unshut_of_writable hwritable
    have hreqs := h.reqs
    have hunasked : ∀ err, .shutdownCb err ∉ s.log := fun err hmem => hnone (h.shutdown_mem hmem)
    refine ⟨{ h with
      reqs := ?_, wanted := fun _ _ => rfl, ended := fun _ _ _ => rfl, closed := ?_, writable := ?_,
      closing := ?_, closeCb := ?_, written := ?_, requested := ?_, answered := ?_, unanswered := ?_,
      obeys := ?_ }, rfl⟩
    · rw [waiting_false hreq] at hreqs
      change s.reqsPending + 1 =
        s.outstanding.length + s.others + (true && s.phase != .shutdownCb).toNat + processed
      rw [Bool.true_and, bne_iff_ne.mpr hphase]
      change s.reqsPending = s.outstanding.length + s.others + 0 + processed at hreqs
      change s.reqsPending + 1 = s.outstanding.length + s.others + 1 + processed
      omega
    · intro hclosed
      cases hopen.symm.trans (h.closed hclosed).1
    · intro hset
      cases hset
    · simpa [wantEndgame] using h.closing
    · simpa [wantEndgame] using h.closeCb
    · simpa [wantEndgame, outstanding] using h.written
    · exact fun _ => mem_cons_self
    · intro _
      left
      simpa [waiting, wantEndgame] using hphase
    · intro _
      simpa [wantEndgame] using hunasked
    · refine justified_cons.mpr ⟨⟨hnone, ?_⟩, h.obeys⟩
      intro hclose
      cases hopen.symm.trans (h.closing.mpr hclose)

theorem close (h : Consistent s writing processed) (hopen : s.closing = false) (queued : Bool)
    (hqueued : queued = false → s.reqsPending ≠ 0) :
    Consistent { s with
      writable := false
      closing := true
      endgameQueued := s.endgameQueued || queued
      log := .close :: s.log } writing processed := by
  have hclose : .close ∉ s.log := by
    intro hmem
    cases hopen.symm.trans (h.closing.mpr hmem)
  refine { h with
    wanted := ?_, ended := ?_, closed := ?_, writable := ?_, closing := ?_, closeCb := ?_,
    written := ?_, requested := ?_, answered := ?_, unanswered := ?_,
    obeys := justified_cons.mpr ⟨hclose, h.obeys⟩ }
  · intro hwaiting hwrites
    simpa using .inl (h.wanted hwaiting hwrites)
  · intro _ hreqs _
    cases queued with
    | false => exact absurd hreqs (hqueued rfl)
    | true => exact Bool.or_true _
  · intro hclosed
    cases hopen.symm.trans (h.closed hclosed).1
  · intro hset
    cases hset
  · exact iff_of_true rfl mem_cons_self
  · simpa using h.closeCb
  · simpa [outstanding] using h.written
  · simpa using h.requested
  · simpa [waiting] using h.answered
  · simpa [waiting] using h.unanswered

theorem uvTcpClose (h : Consistent s writing processed) (hopen : s.closing = false) :
    ∃ t, s.uvTcpClose = some t ∧ Consistent t writing processed ∧ t.phase = s.phase := by
  unfold TcpWriter.uvTcpClose
  rw [if_neg (by simp [hopen])]
  refine ⟨_, rfl, ?_⟩
  dsimp only [wantEndgame]
  split_ifs with hreqs
  · have hclosed := h.close hopen true nofun
    rw [Bool.or_true] at hclosed
    exact ⟨hclosed, rfl⟩
  · have hclosed := h.close hopen false fun _ => hreqs
    rw [Bool.or_false] at hclosed
    exact ⟨hclosed, rfl⟩

/-! ### Requests and endgames are processed -/

theorem setPhase (h : Consistent s writing processed) (phase : TcpWritePhase)
    (hs : s.phase ≠ .shutdownCb) (hphase : phase ≠ .shutdownCb) :
    Consistent { s with phase := phase } writing processed := by
  have hsame : waiting { s with phase := phase } = s.waiting :=
    (waiting_eq hphase).trans (waiting_eq hs).symm
  refine { h with reqs := ?_, wanted := ?_, requested := ?_, answered := ?_, unanswered := ?_ }
  · rw [hsame]
    exact h.reqs
  · rw [hsame]
    exact h.wanted
  · exact fun hset => h.requested (.inl (hset.resolve_right hphase))
  · rw [hsame]
    exact h.answered
  · rw [hsame]
    exact h.unanswered

theorem uvProcessTcpWriteReq (h : Consistent s 0 0) (hphase : s.phase = .idle)
    (hmem : w ∈ s.pendingReqs) :
    ∃ t, s.uvProcessTcpWriteReq w = some t ∧ Consistent t 1 1 ∧ t.phase = .writeCb := by
  have hperm : s.outstanding.Perm (w :: (s.kernel ++ s.pendingReqs.erase w)) :=
    (List.Perm.append_left s.kernel (perm_cons_erase hmem)).trans perm_middle
  have hlength := hperm.length_eq
  have hsize := h.size
  have hwrites := h.writes
  have hreqs := h.reqs
  rw [(hperm.map _).sum_eq, map_cons, sum_cons] at hsize
  rw [length_cons] at hlength
  have htaken : Consistent { s with
      pendingReqs := s.pendingReqs.erase w
      writeQueueSize := s.writeQueueSize - w.queuedBytes
      log := .writeCb w.req :: s.log } 1 1 := by
    refine { h with
      size := ?_, writes := ?_, reqs := ?_, wanted := ?_, closed := ?_, writable := ?_,
      closing := ?_, closeCb := ?_, written := ?_, requested := ?_, answered := ?_, unanswered := ?_,
      obeys := justified_cons.mpr ⟨trivial, h.obeys⟩ }
    · change s.writeQueueSize - w.queuedBytes = ((s.kernel ++ s.pendingReqs.erase w).map _).sum
      omega
    · change s.writeReqsPending = (s.kernel ++ s.pendingReqs.erase w).length + 1
      omega
    · change s.reqsPending =
        (s.kernel ++ s.pendingReqs.erase w).length + s.others + s.waiting.toNat + 1
      omega
    · intro _ hnone
      change s.writeReqsPending = 0 at hnone
      omega
    · intro hclosed
      have hnone := (h.closed hclosed).2.1
      omega
    · simpa using h.writable
    · simpa using h.closing
    · simpa using h.closeCb
    · intro r
      have hr := h.written r
      rw [(hperm.map TcpWriteReq.req).count_eq, map_cons] at hr
      change _ = _ + ((s.kernel ++ s.pendingReqs.erase w).map TcpWriteReq.req).count r
      simp only [count_cons, beq_iff_eq, TcpWriteEntry.writeCb.injEq, reduceCtorEq, if_false]
        at hr ⊢
      omega
    · simpa using h.requested
    · simpa [waiting] using h.answered
    · simpa [waiting] using h.unanswered
  unfold TcpWriter.uvProcessTcpWriteReq
  rw [if_neg (by omega)]
  exact ⟨_, rfl, htaken.setPhase .writeCb (by simp [hphase]) nofun, rfl⟩

theorem decreasePending (h : Consistent s 0 1)
    (hphase : s.phase = .shutdownCb → s.shutdownReq = false) :
    ∃ t, s.decreasePending = some t ∧ Consistent t 0 0 ∧ t.phase = .idle := by
  have hreqs := h.reqs
  have hwaiting : s.waiting = s.shutdownReq := by
    by_cases hcb : s.phase = .shutdownCb
    · rw [hphase hcb]
      exact waiting_false (hphase hcb)
    · exact waiting_eq hcb
  have hrest : ∀ queued : Bool, (queued = false → s.closing = true → s.reqsPending - 1 ≠ 0) →
      Consistent { s with
        reqsPending := s.reqsPending - 1
        phase := .idle
        endgameQueued := s.endgameQueued || queued } 0 0 := by
    intro queued hqueued
    refine { h with
      reqs := ?_, wanted := ?_, ended := ?_, closed := ?_, requested := ?_, answered := ?_,
      unanswered := ?_ }
    · change _ = s.outstanding.length + s.others + (s.shutdownReq && true).toNat + 0
      rw [Bool.and_true, ← hwaiting]
      dsimp only
      omega
    · intro hset hwrites
      simpa using .inl (h.wanted (hwaiting.trans (by simpa [waiting] using hset)) hwrites)
    · intro hclosing hnone _
      cases queued with
      | false => exact absurd hnone (hqueued rfl hclosing)
      | true => exact Bool.or_true _
    · intro hclosed
      have hnone := (h.closed hclosed).2.1
      omega
    · exact fun hset => h.requested (hset.imp_right nofun)
    · have hanswer := h.answered
      rw [hwaiting] at hanswer
      simpa [waiting] using hanswer
    · have hnone := h.unanswered
      rw [hwaiting] at hnone
      simpa [waiting] using hnone
  unfold TcpWriter.decreasePending
  rw [if_neg (by omega)]
  refine ⟨_, rfl, ?_⟩
  dsimp only [wantEndgame]
  split_ifs with hnone
  · have hqueued := hrest true nofun
    rw [Bool.or_true] at hqueued
    exact ⟨hqueued, rfl⟩
  · have hqueued := hrest false fun _ hclosing hzero => hnone ⟨hclosing, hzero⟩
    rw [Bool.or_false] at hqueued
    exact ⟨hqueued, rfl⟩

theorem writeCbReturned (h : Consistent s 1 1) (hphase : s.phase = .writeCb) :
    ∃ t, s.writeCbReturned = some t ∧ Consistent t 0 0 ∧ t.phase = .idle := by
  have hwrites := h.writes
  have hwaiting : s.waiting = s.shutdownReq := waiting_eq (by simp [hphase])
  have hrest : ∀ queued : Bool,
      (queued = false → s.shutdownReq = true → s.writeReqsPending - 1 ≠ 0) →
      Consistent { s with
        writeReqsPending := s.writeReqsPending - 1
        endgameQueued := s.endgameQueued || queued } 0 1 := by
    intro queued hqueued
    refine { h with writes := ?_, wanted := ?_, ended := ?_, closed := ?_ }
    · change s.writeReqsPending - 1 = s.outstanding.length + 0
      omega
    · intro hset hnone
      cases queued with
      | false => exact absurd hnone (hqueued rfl (hwaiting.symm.trans hset))
      | true => exact Bool.or_true _
    · intro hclosing hnone hopen
      simpa using .inl (h.ended hclosing hnone hopen)
    · intro hclosed
      have hnone := (h.closed hclosed).2.1
      have hreqs := h.reqs
      omega
  unfold TcpWriter.writeCbReturned
  dsimp only [wantEndgame]
  split_ifs with hnone
  · have hqueued := hrest true nofun
    rw [Bool.or_true] at hqueued
    exact hqueued.decreasePending fun hcb => by cases hphase.symm.trans hcb
  · have hqueued := hrest false fun _ hset hzero => hnone ⟨hset, hzero⟩
    rw [Bool.or_false] at hqueued
    exact hqueued.decreasePending fun hcb => by cases hphase.symm.trans hcb

theorem shutdownCbReturned (h : Consistent s 0 1) (hphase : s.phase = .shutdownCb) :
    ∃ t, { s with shutdownReq := false }.decreasePending = some t ∧ Consistent t 0 0 ∧
      t.phase = .idle := by
  have hwaiting : s.waiting = false := by simp [waiting, hphase]
  have hunset : waiting { s with shutdownReq := false } = false := waiting_false rfl
  have hrest : Consistent { s with shutdownReq := false } 0 1 := by
    refine { h with reqs := ?_, wanted := ?_, requested := ?_, answered := ?_, unanswered := ?_ }
    · have hreqs := h.reqs
      rw [hwaiting] at hreqs
      rw [hunset]
      exact hreqs
    · intro hset
      cases hunset.symm.trans hset
    · exact fun _ => h.requested (.inr hphase)
    · have hanswer := h.answered
      rw [hwaiting] at hanswer
      rw [hunset]
      exact hanswer
    · intro hset
      cases hunset.symm.trans hset
  exact hrest.decreasePending fun _ => rfl

theorem written_of_none (h : Consistent s 0 0) (hnone : s.writeReqsPending = 0) :
    Written s.log := by
  intro r
  have hwrites := h.writes
  have hempty : s.outstanding = [] := eq_nil_of_length_eq_zero (by omega)
  have hr := h.written r
  rw [hempty] at hr
  exact hr

/-- The shutdown request is carried out: its callback runs, and before it `shutdown` may be
called. -/
theorem shutdownCb (h : Consistent s 0 0) {err : ℕ} {log : List (TcpWriteEntry ρ)}
    (hwaiting : s.waiting = true) (hqueued : s.endgameQueued = true)
    (hlog : Justified Obeys (.shutdownCb err :: log))
      (hsame : log = s.log ∨ log = .sdSend :: s.log) :
    Consistent { s with
      endgameQueued := false
      phase := .shutdownCb
      log := .shutdownCb err :: log } 0 1 := by
  have hmem : ∀ o, o ≠ .sdSend → (o ∈ log ↔ o ∈ s.log) := by
    intro o ho
    obtain rfl | rfl := hsame
    · rfl
    · simp [ho]
  have hcount : ∀ o, o ≠ .sdSend → log.count o = s.log.count o := by
    intro o ho
    obtain rfl | rfl := hsame
    · rfl
    · exact count_cons_of_ne ho.symm
  have hunset : waiting { s with phase := .shutdownCb } = false := Bool.and_false _
  have hreqs := h.reqs
  rw [hwaiting] at hreqs
  change s.reqsPending = s.outstanding.length + s.others + 1 + 0 at hreqs
  have hasked : s.shutdownReq = true := (Bool.and_eq_true_iff.mp hwaiting).1
  refine { h with
    reqs := ?_, wanted := ?_, ended := ?_, closed := ?_, writable := ?_, closing := ?_, closeCb := ?_,
    written := ?_, requested := ?_, answered := ?_, unanswered := ?_, obeys := hlog }
  · change _ = s.outstanding.length + s.others + (waiting { s with phase := .shutdownCb }).toNat + 1
    rw [hunset]
    exact hreqs
  · intro hset
    cases hunset.symm.trans hset
  · intro _ hnone
    dsimp only at hnone
    omega
  · intro hclosed
    cases hqueued.symm.trans (h.closed hclosed).2.2
  · intro hwritable
    exact absurd (h.requested (.inl hasked)) (h.writable hwritable).2
  · simpa [hmem] using h.closing
  · simpa [hmem] using h.closeCb
  · simpa [outstanding, hcount] using h.written
  · intro _
    simpa [hmem] using h.requested (.inl hasked)
  · exact fun _ => .inr ⟨err, mem_cons_self⟩
  · intro hset
    cases hunset.symm.trans hset

theorem closeCbRuns (h : Consistent s 0 0) (hphase : s.phase = .idle)
    (hclosing : s.closing = true) (hnone : s.reqsPending = 0) (hopen : s.closed = false) :
    Consistent { s with
      endgameQueued := false
      closed := true
      phase := .closeCb
      log := .closeCb :: s.log } 0 0 := by
  have hreqs := h.reqs
  have hwrites := h.writes
  have hquiet : s.waiting = false := by
    cases hset : s.waiting with
    | false => rfl
    | true =>
      rw [hset] at hreqs
      change s.reqsPending = s.outstanding.length + s.others + 1 + 0 at hreqs
      omega
  have hanswer : .shutdown ∈ s.log → ∃ err, .shutdownCb err ∈ s.log := by
    intro hshut
    obtain hset | hdone := h.answered hshut
    · cases hquiet.symm.trans hset
    · exact hdone
  have hunclosed : .closeCb ∉ s.log := by
    intro hmem
    cases hopen.symm.trans (h.closeCb.mpr hmem)
  have hobeys : Obeys .closeCb s.log :=
    ⟨h.closing.mp hclosing, hunclosed, h.written_of_none (by omega), hanswer⟩
  have hclosed : Consistent { s with
      endgameQueued := false
      closed := true
      log := .closeCb :: s.log } 0 0 := by
    refine { h with
      wanted := ?_, ended := nofun, closed := ?_, writable := ?_, closing := ?_, closeCb := ?_,
      written := ?_, requested := ?_, answered := ?_, unanswered := ?_,
      obeys := justified_cons.mpr ⟨hobeys, h.obeys⟩ }
    · intro hset
      cases hquiet.symm.trans hset
    · exact fun _ => ⟨hclosing, hnone, rfl⟩
    · simpa using h.writable
    · simpa using h.closing
    · exact iff_of_true rfl mem_cons_self
    · simpa [outstanding] using h.written
    · exact fun hset => mem_cons_of_mem _ (h.requested hset)
    · intro hmem
      right
      simpa using hanswer (by simpa using hmem)
    · intro hset
      cases hquiet.symm.trans hset
  exact hclosed.setPhase .closeCb (by simp [hphase]) nofun

theorem uvTcpEndgame (h : Consistent s 0 0) (hphase : s.phase = .idle)
    (hqueued : s.endgameQueued = true) (err : ℕ) :
    ∃ t, s.uvTcpEndgame err = some t ∧ Consistent t t.phase.writing t.phase.processed := by
  have hwaiting : s.waiting = s.shutdownReq := waiting_eq (by simp [hphase])
  unfold TcpWriter.uvTcpEndgame
  dsimp only
  split_ifs with hshut hclosing hclose hclosed
  · have hset := hwaiting.trans hshut.2.1
    refine ⟨_, rfl, h.shutdownCb hset hqueued (justified_cons.mpr ⟨?_, h.obeys⟩) (.inl rfl)⟩
    refine ⟨h.requested (.inl hshut.2.1), h.unanswered hset, fun _ => rfl, fun hmem => ?_⟩
    exact absurd (h.closing.mp hclosing) hmem
  · have hset := hwaiting.trans hshut.2.1
    have hasked := h.requested (.inl hshut.2.1)
    have hnotClosing : .close ∉ s.log := fun hmem => hclosing (h.closing.mpr hmem)
    refine ⟨_, rfl, h.shutdownCb hset hqueued (justified_cons.mpr ⟨?_, ?_⟩) (.inr rfl)⟩
    · refine ⟨mem_cons_of_mem _ hasked, ?_, ?_, fun _ => mem_cons_self⟩
      · simpa using h.unanswered hset
      · intro hmem
        exact absurd (by simpa using hmem) hnotClosing
    · exact justified_cons.mpr ⟨⟨h.written_of_none hshut.2.2, hasked, hnotClosing⟩, h.obeys⟩
  · cases hqueued.symm.trans (h.closed hclosed).2.2
  · exact ⟨_, rfl, h.closeCbRuns hphase hclose.1 hclose.2 (by simpa using hclosed)⟩
  · refine ⟨_, rfl, ?_⟩
    dsimp only
    suffices hrest : Consistent { s with endgameQueued := false } 0 0 by
      rw [hphase] at hrest ⊢
      exact hrest
    refine { h with wanted := ?_, ended := ?_, closed := ?_ }
    · intro hset hnone
      exact absurd ⟨h.connection, hwaiting.symm.trans hset, hnone⟩ hshut
    · intro hclosing hnone
      exact absurd ⟨hclosing, hnone⟩ hclose
    · intro hclosed
      exact absurd ⟨(h.closed hclosed).1, (h.closed hclosed).2.1⟩ hclose

/-! ### Every run -/

def Rests (s : TcpWriter ρ) : Prop := Consistent s s.phase.writing s.phase.processed

theorem rests_of_same (h : Consistent t s.phase.writing s.phase.processed)
    (hphase : t.phase = s.phase) : Rests t := by
  unfold Rests
  rw [hphase]
  exact h

theorem rests_of_idle (h : Consistent t 0 0) (hphase : t.phase = .idle) : Rests t := by
  unfold Rests
  rw [hphase]
  exact h

theorem at_idle (h : Rests s) (hphase : s.phase = .idle) : Consistent s 0 0 := by
  unfold Rests at h
  rw [hphase] at h
  exact h

theorem returned (h : Rests s) (hphase : s.phase ≠ .idle) : ∃ t, s.returned = some t ∧ Rests t := by
  unfold Rests at h
  unfold TcpWriter.returned
  cases hcb : s.phase with
  | idle => exact absurd hcb hphase
  | writeCb =>
    rw [hcb] at h
    obtain ⟨t, ht, hrests, hidle⟩ := h.writeCbReturned hcb
    exact ⟨t, ht, rests_of_idle hrests hidle⟩
  | shutdownCb =>
    rw [hcb] at h
    obtain ⟨t, ht, hrests, hidle⟩ := h.shutdownCbReturned hcb
    exact ⟨t, ht, rests_of_idle hrests hidle⟩
  | otherCb =>
    rw [hcb] at h
    obtain ⟨t, ht, hrests, hidle⟩ := h.decreasePending fun habs => by cases hcb.symm.trans habs
    exact ⟨t, ht, rests_of_idle hrests hidle⟩
  | closeCb =>
    rw [hcb] at h
    exact ⟨_, rfl, Consistent.setPhase h .idle (by simp [hcb]) nofun⟩

theorem next (h : Rests s) (henabled : s.Enabled e) : ∃ t, s.next e = some t ∧ Rests t := by
  cases e with
  | write r bufs outcome registered =>
    obtain ⟨hrests, hphase⟩ := Consistent.uvWrite h r bufs outcome registered
    exact ⟨_, rfl, rests_of_same hrests hphase⟩
  | shutdown =>
    obtain ⟨hrests, hphase⟩ := Consistent.uvShutdown h
    exact ⟨_, rfl, rests_of_same hrests hphase⟩
  | close =>
    obtain ⟨t, ht, hrests, hphase⟩ := Consistent.uvTcpClose h henabled
    exact ⟨t, ht, rests_of_same hrests hphase⟩
  | reqBegin =>
    have hreqs := h.reqs
    refine ⟨_, rfl, { h with reqs := ?_, ended := ?_, closed := ?_ }⟩
    · change s.reqsPending + 1 =
        s.outstanding.length + (s.others + 1) + s.waiting.toNat + s.phase.processed
      omega
    · intro hclosing
      cases henabled.symm.trans hclosing
    · intro hclosed
      cases henabled.symm.trans (h.closed hclosed).1
  | complete w =>
    refine ⟨_, rfl, Consistent.moved h ?_⟩
    exact perm_middle.trans ((perm_cons_erase henabled).symm.append_right s.pendingReqs)
  | process w =>
    obtain ⟨hidle, hmem⟩ := henabled
    obtain ⟨t, ht, hrests, hphase⟩ := (at_idle h hidle).uvProcessTcpWriteReq hidle hmem
    refine ⟨t, ht, ?_⟩
    unfold Rests
    rw [hphase]
    exact hrests
  | reqDone =>
    obtain ⟨hidle, hothers⟩ := henabled
    have hrest := at_idle h hidle
    have hreqs := hrest.reqs
    have hdone : Consistent { s with others := s.others - 1 } 0 1 := by
      refine { hrest with reqs := ?_ }
      change s.reqsPending = s.outstanding.length + (s.others - 1) + s.waiting.toNat + 1
      omega
    exact ⟨_, rfl, hdone.setPhase .otherCb (by simp [hidle]) nofun⟩
  | returned => exact Consistent.returned h henabled
  | endgame err =>
    obtain ⟨hidle, hqueued⟩ := henabled
    exact (at_idle h hidle).uvTcpEndgame hidle hqueued err

theorem init (h : Init s) : Rests s := by
  have hout : s.outstanding = [] := by
    rw [outstanding, h.kernel, h.pendingReqs]
    rfl
  have hwaiting : s.waiting = false := waiting_false h.shutdownReq
  unfold Rests
  rw [h.phase]
  constructor
  · exact h.connection
  · rw [hout]
    exact h.writeQueueSize
  · rw [hout]
    exact h.writeReqsPending
  · rw [hout, hwaiting, h.others]
    exact h.reqsPending
  · intro hset
    cases hwaiting.symm.trans hset
  · intro hclosing
    cases h.closing.symm.trans hclosing
  · intro hclosed
    cases h.closed.symm.trans hclosed
  · simp [h.closing, h.log]
  · simp [h.closing, h.log]
  · simp [h.closed, h.log]
  · simp [hout, h.log]
  · simp [h.shutdownReq, h.phase]
  · simp [h.log]
  · simp [h.log]
  · rw [h.log]
    exact justified_nil

theorem of_reachable (h : Reachable Init Step s) : Rests s := by
  apply h.invariant_of_next
  · exact fun s hs => init hs
  · exact fun s e hs henabled => next hs henabled

end Consistent

end LibuvWorks.Win.TcpWriter
