import LibuvWorks.Unix.StreamWrites

/-!
# The sends of a unix udp handle

`uv__udp_send` queues a request and sends it at once when no other request is counted;
`uv__udp_sendmsg` runs until the queue is empty or the socket is full, and
`uv__udp_run_completed` reports the requests that are done.
-/
open List Option

namespace LibuvWorks.Unix

/-- `uv_udp_send_t`, with the number of the requests that were accepted before it. -/
structure SendReq (α : Type*) where
  id : ℕ
  bufs : List (List α)
  status : ℤ

/-- What has called `uv__udp_sendmsg`. -/
inductive Sender where
  | send : Sender
  | io : Sender
  deriving DecidableEq

/-- The part of `uv_udp_t` that is about sends. `sending` says that `uv__udp_sendmsg` waits for
the kernel, `processing` is `UV_UDP_PROCESSING`, `fed` that the watcher is in `pending_queue`. The
last two fields are the requests that were accepted and the callbacks that have run. -/
structure Udp (α : Type*) where
  writeQueue : List (SendReq α)
  writeCompletedQueue : List (SendReq α)
  sendQueueSize : BitVec 64
  sendQueueCount : BitVec 64
  fd : ℤ
  closing : Bool
  closed : Bool
  pollOut : Bool
  fed : Bool
  processing : Bool
  sending : Option Sender
  accepted : List (List α)
  called : List (ℕ × ℤ)

variable {α : Type*}

def SendReq.bytes (r : SendReq α) : ℕ := r.bufs.flatten.length

namespace Udp

variable (s : Udp α)

/-- `uv__udp_run_completed` begins. -/
def uvUdpRunCompleted : Option (Udp α) :=
  if s.processing then none else some { s with processing := true }

/-- `uv__udp_sendmsg` returns; `uv__udp_io` goes on with the callbacks. -/
def sendmsgReturned : Sender → Option (Udp α)
  | .send => some { s with sending := none }
  | .io => { s with sending := none }.uvUdpRunCompleted

/-- A round of `uv__udp_sendmsg`, until it asks the kernel. -/
def uvUdpSendmsg (caller : Sender) : Option (Udp α) :=
  if s.writeQueue.isEmpty then s.sendmsgReturned caller else some { s with sending := some caller }

/-- The first request is done, or has failed. -/
def sendmsgDone (caller : Sender) (status : ℤ) : Option (Udp α) :=
  match s.writeQueue with
  | [] => none
  | r :: rest =>
    { s with
      writeQueue := rest
      writeCompletedQueue := s.writeCompletedQueue ++ [{ r with status := status }]
      fed := true }.uvUdpSendmsg caller

/-- The rest of the round. The kernel takes less than `2 ^ 31` bytes in a datagram. -/
def answered (caller : Sender) : Answer → Option (Udp α)
  | .fails errno =>
    if errno = 0 then none
    else if errno = eintr then some s
    else if errno = eagain then s.sendmsgReturned caller
    else s.sendmsgDone caller (-errno)
  | .wrote n => if n < 2 ^ 31 then s.sendmsgDone caller n else none

/-- `uv__udp_maybe_deferred_bind`, which may open a socket. -/
def uvUdpMaybeDeferredBind (fd err : ℤ) : Udp α × ℤ :=
  if s.fd ≠ -1 then (s, 0) else ({ s with fd := fd }, err)

/-- `uv__udp_send`; `fd` and `err` are what a deferred bind gives. -/
def uvUdpSend (bufs : List (List α)) (fd err : ℤ) (allocated : Bool) : Option (Udp α × ℤ) :=
  if bufs = [] then none
  else
    let (s, err) := s.uvUdpMaybeDeferredBind fd err
    if err ≠ 0 then some (s, err)
    else
      let emptyQueue := s.sendQueueCount = 0
      if 4 < bufs.length ∧ !allocated then some (s, uvEnomem)
      else
        let s := { s with
          writeQueue := s.writeQueue ++ [(⟨s.accepted.length, bufs, 0⟩ : SendReq α)]
          sendQueueSize := s.sendQueueSize + uvCountBufs bufs
          sendQueueCount := s.sendQueueCount + 1
          accepted := s.accepted ++ [bufs.flatten] }
        if emptyQueue ∧ !s.processing then (s.uvUdpSendmsg .send).map fun s => (s, 0)
        else some ({ s with pollOut := true }, 0)

/-- A round of `uv__udp_run_completed`: a request is removed and its callback runs. -/
def uvUdpCallback : Option (Udp α) :=
  match s.writeCompletedQueue with
  | [] => none
  | r :: rest =>
    if s.processing then
      some { s with
        writeCompletedQueue := rest
        sendQueueSize := s.sendQueueSize - uvCountBufs r.bufs
        sendQueueCount := s.sendQueueCount - 1
        called := s.called ++ [(r.id, if 0 ≤ r.status then 0 else r.status)] }
    else none

/-- `uv__udp_run_completed` returns, and so does `uv__udp_finish_close`. -/
def runCompletedReturned : Option (Udp α) :=
  if !s.processing ∨ s.writeCompletedQueue ≠ [] then none
  else if s.closed ∧ (s.sendQueueSize ≠ 0 ∨ s.sendQueueCount ≠ 0) then none
  else
    some { s with
      pollOut := if s.writeQueue.isEmpty then false else s.pollOut
      processing := false }

/-- `uv__udp_io`, for `POLLOUT`. -/
def uvUdpIo : Option (Udp α) :=
  if s.processing then none else s.uvUdpSendmsg .io

/-- `uv__run_pending` takes the watcher. -/
def uvRunPending : Option (Udp α) :=
  if s.fed then { s with fed := false }.uvUdpIo else none

def uvUdpClose : Option (Udp α) :=
  if s.closing then none
  else some { s with closing := true, fd := -1, pollOut := false, fed := false }

/-- `uv__udp_finish_close`, until it runs the callbacks. -/
def uvUdpFinishClose : Option (Udp α) :=
  if !s.closing ∨ s.closed ∨ s.pollOut ∨ s.fd ≠ -1 then none
  else
    let canceled := s.writeQueue.map fun r => { r with status := uvEcanceled }
    { s with
      closed := true
      writeQueue := []
      writeCompletedQueue := s.writeCompletedQueue ++ canceled }.uvUdpRunCompleted

end Udp

end LibuvWorks.Unix

/-!
## What is sent by a unix udp handle

Every request that is accepted is counted until its callback runs. A request that is left in the
queue needs `POLLOUT`, which `uv__udp_send` does not ask for when it has sent by itself.
-/
namespace LibuvWorks.Unix

open Transition

variable {α : Type*}

namespace Udp

/-- The calls of the user and of the loop, and the answers of the kernel. -/
inductive Event (α : Type*) where
  | send (bufs : List (List α)) (fd err : ℤ) (allocated : Bool) : Event α
  | answer (a : Answer) : Event α
  | io : Event α
  | pending : Event α
  | callback : Event α
  | returned : Event α
  | close : Event α
  | finishClose : Event α

def next (s : Udp α) : Event α → Option (Udp α)
  | .send bufs fd err allocated => (s.uvUdpSend bufs fd err allocated).map Prod.fst
  | .answer a => s.sending.bind fun caller => s.answered caller a
  | .io => if s.pollOut then s.uvUdpIo else none
  | .pending => s.uvRunPending
  | .callback => s.uvUdpCallback
  | .returned => s.runCompletedReturned
  | .close => s.uvUdpClose
  | .finishClose => s.uvUdpFinishClose

def Event.isAnswer : Event α → Bool
  | .answer _ => true
  | _ => false

/-- `uv__udp_sendmsg` waits for the kernel, and nothing else happens meanwhile. -/
def step (s : Udp α) (e : Event α) : Option (Udp α) :=
  if e.isAnswer = s.sending.isSome then s.next e else none

def Step (s : Udp α) (e : Event α) (t : Udp α) : Prop := step s e = some t

structure Init (s : Udp α) : Prop where
  writeQueue : s.writeQueue = []
  writeCompletedQueue : s.writeCompletedQueue = []
  sendQueueSize : s.sendQueueSize = 0
  sendQueueCount : s.sendQueueCount = 0
  closing : s.closing = false
  closed : s.closed = false
  processing : s.processing = false
  sending : s.sending = none
  accepted : s.accepted = []
  called : s.called = []

def waitingBytes (s : Udp α) : ℕ := ((s.accepted.drop s.called.length).map List.length).sum

/-- No `EAGAIN` for the call of `uv__udp_send` itself, no send after `uv_close`, and the counters
are large enough. -/
def Sendable (s : Udp α) : Event α → Prop
  | .answer (.fails errno) => errno = eagain → s.sending ≠ some .send
  | .send bufs _ _ _ => s.closing = false ∧ s.waitingBytes + bufs.flatten.length < 2 ^ 64 ∧
      s.accepted.length - s.called.length + 1 < 2 ^ 64
  | _ => True

instance (s : Udp α) (e : Event α) : Decidable (Sendable s e) :=
  match e with
  | .answer (.fails errno) => inferInstanceAs (Decidable (errno = eagain → s.sending ≠ some .send))
  | .send _ _ _ _ => inferInstanceAs (Decidable (_ ∧ _ ∧ _))
  | .answer (.wrote _) | .io | .pending | .callback | .returned | .close | .finishClose =>
    inferInstanceAs (Decidable True)

variable {s t : Udp α} {r : SendReq α} {rest : List (SendReq α)} {caller : Sender} {e : Event α}

/-! ### The requests are counted -/

def keys (s : Udp α) : List (ℕ × List (List α)) :=
  (s.writeCompletedQueue ++ s.writeQueue).map fun r => (r.id, r.bufs)

structure Counted (s : Udp α) : Prop where
  ids : s.called.map Prod.fst ++ s.keys.map Prod.fst = List.range s.accepted.length
  bytes : s.keys.map (fun x => x.2.flatten) = s.accepted.drop s.called.length
  size : s.sendQueueSize = BitVec.ofNat 64 s.waitingBytes
  count : s.sendQueueCount = BitVec.ofNat 64 (s.accepted.length - s.called.length)
  fitsBytes : s.waitingBytes < 2 ^ 64
  fitsCount : s.accepted.length - s.called.length < 2 ^ 64

theorem Counted.of_init (h : Init s) : Counted s := by
  constructor <;>
    simp [keys, waitingBytes, h.writeQueue, h.writeCompletedQueue, h.accepted, h.called,
    h.sendQueueSize, h.sendQueueCount]

theorem Counted.of_keys (h : Counted s) (hkeys : t.keys = s.keys)
    (hsize : t.sendQueueSize = s.sendQueueSize) (hcount : t.sendQueueCount = s.sendQueueCount)
    (haccepted : t.accepted = s.accepted) (hcalled : t.called = s.called) : Counted t := by
  obtain ⟨ids, bytes, size, count, fitsBytes, fitsCount⟩ := h
  constructor <;> simp only [waitingBytes, hkeys, hsize, hcount, haccepted, hcalled] at * <;>
    assumption

theorem Counted.length_eq (h : Counted s) :
    s.called.length + s.keys.length = s.accepted.length := by
  simpa using congrArg List.length h.ids

theorem Counted.submit (h : Counted s) {bufs : List (List α)}
    (hbytes : s.waitingBytes + bufs.flatten.length < 2 ^ 64)
    (hcount : s.accepted.length - s.called.length + 1 < 2 ^ 64)
    (hkeys : t.keys = s.keys ++ [(s.accepted.length, bufs)])
    (hsize : t.sendQueueSize = s.sendQueueSize + uvCountBufs bufs)
    (hcount' : t.sendQueueCount = s.sendQueueCount + 1)
    (haccepted : t.accepted = s.accepted ++ [bufs.flatten]) (hcalled : t.called = s.called) :
    Counted t := by
  have hlen := h.length_eq
  have hdrop : t.accepted.drop t.called.length =
      s.accepted.drop s.called.length ++ [bufs.flatten] := by
    rw [haccepted, hcalled, drop_append_of_le_length (by omega)]
  have hwaiting : t.waitingBytes = s.waitingBytes + bufs.flatten.length := by
    rw [waitingBytes, waitingBytes, hdrop, map_append, sum_append]
    rfl
  have hless : t.accepted.length - t.called.length = s.accepted.length - s.called.length + 1 := by
    rw [haccepted, hcalled, length_append, length_singleton]
    omega
  constructor
  · rw [hkeys, haccepted, hcalled, map_append, ← append_assoc, h.ids, length_append,
      length_singleton, range_succ]
    rfl
  · rw [hkeys, hdrop, map_append, h.bytes]
    rfl
  · rw [hsize, hwaiting, h.size, Stream.uvCountBufs_eq, BitVec.ofNat_add]
  · rw [hcount', hless, h.count, BitVec.ofNat_add]
    rfl
  · rw [hwaiting]
    exact hbytes
  · rw [hless]
    exact hcount

theorem Counted.callback (h : Counted s) (hcallback : s.uvUdpCallback = some t) : Counted t := by
  unfold uvUdpCallback at hcallback
  split at hcallback
  · cases hcallback
  · next r rest hcompleted =>
    obtain ⟨-, hcallback⟩ := by simpa only [ite_none_right_eq_some] using hcallback
    cases hcallback
    have hkeys : s.keys = (r.id, r.bufs) :: (rest ++ s.writeQueue).map fun r => (r.id, r.bufs) := by
      rw [keys, hcompleted]
      rfl
    have hlen := h.length_eq
    rw [hkeys, length_cons] at hlen
    have hdrop := h.bytes
    rw [hkeys, map_cons, drop_eq_getElem_cons (by omega)] at hdrop
    obtain ⟨hfirst, hrest⟩ := List.cons.inj hdrop
    have hwaiting : s.waitingBytes = ((s.accepted.drop (s.called.length + 1)).map List.length).sum +
        r.bufs.flatten.length := by
      rw [waitingBytes, drop_eq_getElem_cons (by omega), map_cons, sum_cons,
        ← hfirst, Nat.add_comm]
    have hless : s.accepted.length - s.called.length =
        s.accepted.length - (s.called.length + 1) + 1 := by omega
    have hbytes := h.fitsBytes
    have hcount := h.fitsCount
    constructor
    · have hids := h.ids
      rw [hkeys] at hids
      simpa [keys] using hids
    · simpa [keys] using hrest
    · rw [h.size, hwaiting, Stream.uvCountBufs_eq, BitVec.ofNat_add, BitVec.add_sub_cancel]
      simp [waitingBytes]
    · simp only [length_append, length_singleton]
      rw [h.count, hless, BitVec.ofNat_add]
      exact BitVec.add_sub_cancel _ _
    · simp only [waitingBytes, length_append, length_singleton]
      omega
    · simp only [length_append, length_singleton]
      omega

/-! ### The watcher is armed -/

structure Armed (s : Udp α) : Prop where
  armed : s.closing = false → s.writeQueue ≠ [] → s.pollOut = true ∨ s.sending = some .send
  direct : s.sending = some .send → ∃ r, s.writeQueue = [r]
  closing : s.closing = true → s.pollOut = false ∧ s.fed = false ∧ s.sending = none
  closed : s.closed = true → s.closing = true ∧ s.writeQueue = [] ∧
    (s.processing = true ∨ s.writeCompletedQueue = [])

theorem Armed.of_init (h : Init s) : Armed s := by
  constructor <;> simp [h.writeQueue, h.sending, h.closing, h.closed]

theorem Armed.of_open (hclosing : t.closing = false) (hclosed : t.closed = false)
    (harmed : t.writeQueue ≠ [] → t.pollOut = true ∨ t.sending = some .send)
    (hdirect : t.sending = some .send → ∃ r, t.writeQueue = [r]) : Armed t := by
  refine ⟨fun _ => harmed, hdirect, fun habs => ?_, fun habs => ?_⟩
  · rw [hclosing] at habs
    cases habs
  · rw [hclosed] at habs
    cases habs

theorem Armed.closed_eq (h : Armed s) (hclosing : s.closing = false) : s.closed = false := by
  by_contra habs
  obtain ⟨hclosing', -⟩ := h.closed (by simpa using habs)
  rw [hclosing] at hclosing'
  cases hclosing'

theorem sendmsgReturned_eq (h : s.sendmsgReturned caller = some t) :
    t = { s with sending := none, processing := t.processing } := by
  unfold sendmsgReturned uvUdpRunCompleted at h
  cases caller with
  | send =>
    cases h
    rfl
  | io =>
    obtain ⟨-, h⟩ := by simpa only [ite_none_left_eq_some] using h
    cases h
    rfl

theorem uvUdpSendmsg_eq (h : s.uvUdpSendmsg caller = some t) :
    (s.writeQueue = [] ∧ t = { s with sending := none, processing := t.processing }) ∨
      (s.writeQueue ≠ [] ∧ t = { s with sending := some caller }) := by
  unfold uvUdpSendmsg at h
  split at h
  · next hempty => exact .inl ⟨List.isEmpty_iff.mp hempty, sendmsgReturned_eq h⟩
  · next hempty =>
    cases h
    exact .inr ⟨by simpa using hempty, rfl⟩

theorem sendmsgDone_eq {status : ℤ} (h : s.sendmsgDone caller status = some t) :
    ∃ r rest, s.writeQueue = r :: rest ∧
      ∃ sending, (sending = none ∨ sending = some caller ∧ rest ≠ []) ∧ t = { s with
        writeQueue := rest
        writeCompletedQueue := s.writeCompletedQueue ++ [{ r with status := status }]
        fed := true
        sending := sending
        processing := t.processing } := by
  unfold sendmsgDone at h
  split at h
  · cases h
  · next r rest hqueue =>
    refine ⟨r, rest, hqueue, ?_⟩
    obtain ⟨-, ht⟩ | ⟨hrest, rfl⟩ := uvUdpSendmsg_eq h
    · exact ⟨none, .inl rfl, ht⟩
    · exact ⟨some caller, .inr ⟨rfl, hrest⟩, rfl⟩

theorem Armed.open_of_sending (h : Armed s) (hsending : s.sending = some caller) :
    s.closing = false := by
  by_contra habs
  obtain ⟨-, -, hnone⟩ := h.closing (by simpa using habs)
  rw [hsending] at hnone
  cases hnone

theorem Armed.done {status : ℤ} (h : Armed s) (hsending : s.sending = some caller)
    (hdone : s.sendmsgDone caller status = some t) : Armed t := by
  obtain ⟨r, rest, hqueue, sending, hnext, ht⟩ := sendmsgDone_eq hdone
  have hclosing := h.open_of_sending hsending
  have hio : rest ≠ [] → caller ≠ .send := by
    rintro hrest rfl
    obtain ⟨v, hv⟩ := h.direct hsending
    rw [hqueue] at hv
    exact hrest (List.cons.inj hv).2
  rw [ht]
  refine Armed.of_open hclosing (h.closed_eq hclosing) ?_ ?_
  · intro hrest
    refine .inl ((h.armed hclosing (by simp [hqueue])).resolve_right fun habs => hio hrest ?_)
    rw [hsending] at habs
    exact Option.some.inj habs
  · intro habs
    obtain hnone | ⟨hsame, hrest⟩ := hnext
    · dsimp only at habs
      rw [hnone] at habs
      cases habs
    · dsimp only at habs
      rw [hsame] at habs
      exact absurd (Option.some.inj habs) (hio hrest)

theorem Armed.io {b : Bool} (h : Armed s) (hclosing : s.closing = false)
    (hsending : s.sending = none)
    (hio : { s with fed := b }.uvUdpIo = some t) : Armed t := by
  have harmed : s.writeQueue ≠ [] → s.pollOut = true := by
    intro hqueue
    apply (h.armed hclosing hqueue).resolve_right
    intro habs
    rw [hsending] at habs
    cases habs
  obtain ⟨-, hio⟩ := by simpa only [uvUdpIo, ite_none_left_eq_some] using hio
  obtain ⟨hempty, ht⟩ | ⟨hqueue, rfl⟩ := uvUdpSendmsg_eq hio
  · rw [ht]
    refine Armed.of_open hclosing (h.closed_eq hclosing) ?_ ?_
    · intro habs
      exact absurd hempty habs
    · intro habs
      cases habs
  · refine Armed.of_open hclosing (h.closed_eq hclosing) ?_ ?_
    · intro _
      exact .inl (harmed hqueue)
    · intro habs
      cases habs

/-- The queues after `uv__udp_send`, which arms the watcher or sends by itself. -/
theorem uvUdpSend_cases {bufs : List (List α)} {fd err err' : ℤ} {allocated : Bool}
    (h : s.uvUdpSend bufs fd err allocated = some (t, err')) :
    ∃ fd', t = { s with fd := fd' } ∨ (s.sendQueueCount = 0 ∧ s.processing = false ∧ t = { s with
      fd := fd'
      writeQueue := s.writeQueue ++ [⟨s.accepted.length, bufs, 0⟩]
      sendQueueSize := s.sendQueueSize + uvCountBufs bufs
      sendQueueCount := s.sendQueueCount + 1
      accepted := s.accepted ++ [bufs.flatten]
      sending := some .send }) ∨ t = { s with
      fd := fd'
      writeQueue := s.writeQueue ++ [⟨s.accepted.length, bufs, 0⟩]
      sendQueueSize := s.sendQueueSize + uvCountBufs bufs
      sendQueueCount := s.sendQueueCount + 1
      accepted := s.accepted ++ [bufs.flatten]
      pollOut := true } := by
  unfold uvUdpSend at h
  obtain ⟨-, h⟩ := by simpa only [ite_none_left_eq_some] using h
  obtain ⟨fd', err'', hbind⟩ : ∃ fd' err'', s.uvUdpMaybeDeferredBind fd err =
      ({ s with fd := fd' }, err'') := by
    unfold uvUdpMaybeDeferredBind
    split
    · exact ⟨s.fd, 0, rfl⟩
    · exact ⟨fd, err, rfl⟩
  refine ⟨fd', ?_⟩
  simp only [hbind] at h
  split_ifs at h with herr halloc hempty
  · cases h
    exact .inl rfl
  · cases h
    exact .inl rfl
  · obtain ⟨u, hu, huv⟩ := map_eq_some_iff.mp h
    cases huv
    obtain ⟨habs, -⟩ | ⟨-, rfl⟩ := uvUdpSendmsg_eq hu
    · exact absurd habs (by simp)
    · exact .inr (.inl ⟨hempty.1, by simpa using hempty.2, rfl⟩)
  · cases h
    exact .inr (.inr rfl)

/-- What a run keeps whose steps are all `Sendable`. -/
structure SendsOk (s : Udp α) : Prop extends Counted s, Armed s

section

variable (h : SendsOk s)
include h

theorem SendsOk.send {bufs : List (List α)} {fd err err' : ℤ} {allocated : Bool}
    (hsending : s.sending = none) (hsendable : Sendable s (.send bufs fd err allocated))
    (hsend : s.uvUdpSend bufs fd err allocated = some (t, err')) : SendsOk t := by
  obtain ⟨hclosing, hbytes, hcount⟩ := hsendable
  have hclosed := h.toArmed.closed_eq hclosing
  obtain ⟨fd', rfl | ⟨hempty, hprocessing, rfl⟩ | rfl⟩ := uvUdpSend_cases hsend
  · exact ⟨h.toCounted.of_keys rfl rfl rfl rfl rfl, { h with }⟩
  · refine ⟨h.toCounted.submit hbytes hcount ?_ rfl rfl rfl rfl,
      .of_open hclosing hclosed (fun _ => .inr rfl) fun _ => ?_⟩
    · simp [keys]
    · have hzero : s.accepted.length - s.called.length = 0 := by
        have hfits := h.fitsCount
        have hmod := congrArg BitVec.toNat (h.count.symm.trans hempty)
        rw [BitVec.toNat_ofNat, Nat.mod_eq_of_lt hfits] at hmod
        simpa using hmod
      have hnil : s.keys = [] := by
        have hlen := h.toCounted.length_eq
        exact length_eq_zero_iff.mp (by omega)
      have hqueue : s.writeQueue = [] := by
        rw [keys, map_eq_nil_iff, append_eq_nil_iff] at hnil
        exact hnil.2
      exact ⟨_, by simp [hqueue]; rfl⟩
  · refine ⟨h.toCounted.submit hbytes hcount ?_ rfl rfl rfl rfl,
      .of_open hclosing hclosed (fun _ => .inl rfl) fun habs => ?_⟩
    · simp [keys]
    · dsimp only at habs
      rw [hsending] at habs
      cases habs

theorem SendsOk.done {status : ℤ} (hsending : s.sending = some caller)
    (hdone : s.sendmsgDone caller status = some t) : SendsOk t := by
  refine ⟨?_, h.toArmed.done hsending hdone⟩
  obtain ⟨r, rest, hqueue, sending, -, ht⟩ := sendmsgDone_eq hdone
  rw [ht]
  refine h.toCounted.of_keys ?_ rfl rfl rfl rfl
  simp [keys, hqueue]

theorem SendsOk.io {b : Bool} (hclosing : s.closing = false)
    (hsending : s.sending = none) (hio : { s with fed := b }.uvUdpIo = some t) : SendsOk t := by
  refine ⟨?_, h.toArmed.io hclosing hsending hio⟩
  obtain ⟨-, hio⟩ := by simpa only [uvUdpIo, ite_none_left_eq_some] using hio
  obtain ⟨-, ht⟩ | ⟨-, rfl⟩ := uvUdpSendmsg_eq hio
  · rw [ht]
    exact h.toCounted.of_keys rfl rfl rfl rfl rfl
  · exact h.toCounted.of_keys rfl rfl rfl rfl rfl

theorem SendsOk.answered {a : Answer} (hsending : s.sending = some caller)
    (hsendable : Sendable s (.answer a)) (hanswered : s.answered caller a = some t) :
    SendsOk t := by
  unfold Udp.answered at hanswered
  cases a with
  | fails errno =>
    dsimp only at hanswered
    split_ifs at hanswered with hzero hintr hagain
    · cases hanswered
      exact h
    · have hcaller : s.sending ≠ some .send := hsendable hagain
      have hclosing := h.toArmed.open_of_sending hsending
      rw [sendmsgReturned_eq hanswered]
      refine ⟨h.toCounted.of_keys rfl rfl rfl rfl rfl,
        .of_open hclosing (h.toArmed.closed_eq hclosing) (fun hqueue => ?_) fun habs => by cases habs⟩
      exact .inl ((h.armed hclosing hqueue).resolve_right hcaller)
    · exact h.done hsending hanswered
  | wrote n =>
    obtain ⟨-, hanswered⟩ := by
      simpa only [ite_none_right_eq_some] using hanswered
    exact h.done hsending hanswered

theorem SendsOk.callback (hcallback : s.uvUdpCallback = some t) : SendsOk t := by
  refine ⟨h.toCounted.callback hcallback, ?_⟩
  unfold uvUdpCallback at hcallback
  split at hcallback
  · cases hcallback
  · obtain ⟨hprocessing, hcallback⟩ := by
      simpa only [ite_none_right_eq_some] using hcallback
    cases hcallback
    refine { h with closed := fun hclosed => ?_ }
    obtain ⟨hclosing, hqueue, -⟩ := h.closed hclosed
    exact ⟨hclosing, hqueue, .inl hprocessing⟩

theorem SendsOk.returned (hreturned : s.runCompletedReturned = some t) :
    SendsOk t := by
  obtain ⟨hguard, hreturned⟩ := by
    simpa only [runCompletedReturned, ite_none_left_eq_some] using hreturned
  obtain ⟨-, hreturned⟩ := hreturned
  cases hreturned
  have hcompleted : s.writeCompletedQueue = [] := not_not.mp (not_or.mp hguard).2
  refine ⟨h.toCounted.of_keys rfl rfl rfl rfl rfl, ⟨fun hclosing hqueue => ?_, h.direct,
    fun hclosing => ?_, fun hclosed => ?_⟩⟩
  · rw [if_neg (by simpa using hqueue)]
    exact h.armed hclosing hqueue
  · obtain ⟨hpoll, hfed, hsending⟩ := h.closing hclosing
    refine ⟨?_, hfed, hsending⟩
    split
    · rfl
    · exact hpoll
  · obtain ⟨hclosing, hqueue, -⟩ := h.closed hclosed
    exact ⟨hclosing, hqueue, .inr hcompleted⟩

theorem SendsOk.finishClose (hfinish : s.uvUdpFinishClose = some t) :
    SendsOk t := by
  obtain ⟨hguard, hfinish⟩ := by
    simpa only [uvUdpFinishClose, ite_none_left_eq_some] using hfinish
  obtain ⟨-, hfinish⟩ := by
    simpa only [uvUdpRunCompleted, ite_none_left_eq_some] using hfinish
  cases hfinish
  have hclosing : s.closing = true := by simpa using (not_or.mp hguard).1
  refine ⟨h.toCounted.of_keys ?_ rfl rfl rfl rfl, ⟨fun _ habs => absurd rfl habs, fun habs => ?_,
    h.closing, fun _ => ⟨hclosing, rfl, .inl rfl⟩⟩⟩
  · simp [keys]
  · obtain ⟨-, -, hnone⟩ := h.closing hclosing
    dsimp only at habs
    rw [hnone] at habs
    cases habs

theorem SendsOk.step (hsendable : Sendable s e) (hstep : Step s e t) :
    SendsOk t := by
  obtain ⟨hanswer, hnext⟩ := by
    simpa only [Step, Udp.step, ite_none_right_eq_some] using hstep
  cases e with
  | answer a =>
    obtain ⟨caller, hsending, hanswered⟩ := bind_eq_some_iff.mp hnext
    exact h.answered hsending hsendable hanswered
  | send bufs fd err allocated =>
    obtain ⟨⟨t', err'⟩, hsend, rfl⟩ := map_eq_some_iff.mp hnext
    exact h.send (by simpa [Event.isAnswer] using hanswer) hsendable hsend
  | io =>
    obtain ⟨hpoll, hio⟩ := by
      simpa only [next, ite_none_right_eq_some] using hnext
    refine h.io (b := s.fed) ?_ (by simpa [Event.isAnswer] using hanswer) hio
    by_contra habs
    obtain ⟨hnot, -⟩ := h.closing (by simpa using habs)
    rw [hpoll] at hnot
    cases hnot
  | pending =>
    obtain ⟨hfed, hio⟩ := by
      simpa only [next, uvRunPending, ite_none_right_eq_some] using hnext
    refine h.io ?_ (by simpa [Event.isAnswer] using hanswer) hio
    by_contra habs
    obtain ⟨-, hnot, -⟩ := h.closing (by simpa using habs)
    rw [hfed] at hnot
    cases hnot
  | callback => exact h.callback hnext
  | returned => exact h.returned hnext
  | close =>
    obtain ⟨hclosing, hnext⟩ := by
      simpa only [next, uvUdpClose, ite_none_left_eq_some] using hnext
    cases hnext
    have hclosed := h.toArmed.closed_eq (by simpa using hclosing)
    have hsending : s.sending = none := by simpa [Event.isAnswer] using hanswer
    refine ⟨h.toCounted.of_keys rfl rfl rfl rfl rfl, ⟨fun habs => (by cases habs), h.direct,
      fun _ => ⟨rfl, rfl, hsending⟩, fun habs => ?_⟩⟩
    rw [hclosed] at habs
    cases habs
  | finishClose => exact h.finishClose hnext

end

theorem SendsOk.of_reachable (h : Reachable Init (Guarded Sendable Step) s) : SendsOk s :=
  h.invariant (P := SendsOk) (fun _ h => ⟨.of_init h, .of_init h⟩)
    fun _ _ _ _ hs ⟨hsendable, hstep⟩ => hs.step hsendable hstep

/-- `uv__udp_finish_close` runs its callbacks to the end, and its assertions hold. -/
theorem finishClose_completes {callbacks : List (SendReq α)} (h : SendsOk s)
    (hclosed : s.closed = true) (hprocessing : s.processing = true)
    (hcompleted : s.writeCompletedQueue = callbacks) :
    ∃ es t, Run Step s es t ∧ t.closed = true ∧ t.processing = false := by
  obtain ⟨hclosing, hqueue, -⟩ := h.closed hclosed
  obtain ⟨-, -, hsending⟩ := h.closing hclosing
  induction callbacks generalizing s with
  | nil =>
    have hlen := h.toCounted.length_eq
    have hnil : s.keys = [] := by simp [keys, hcompleted, hqueue]
    rw [hnil, length_nil, Nat.add_zero] at hlen
    have hsize : s.sendQueueSize = 0 := by
      rw [h.size, waitingBytes, hlen, drop_length]
      rfl
    have hcount : s.sendQueueCount = 0 := by
      rw [h.count, hlen, Nat.sub_self]
      rfl
    have hstep : Step s .returned { s with
        pollOut := if s.writeQueue.isEmpty then false else s.pollOut
        processing := false } := by
      simp [Step, Udp.step, next, Event.isAnswer, hsending, runCompletedReturned, hprocessing,
        hcompleted, hsize, hcount]
    exact ⟨[.returned], _, .cons hstep (.nil _), hclosed, rfl⟩
  | cons r rest ih =>
    obtain ⟨t, ht⟩ : ∃ t, s.uvUdpCallback = some t := by
      simp [uvUdpCallback, hcompleted, hprocessing]
    have hstep : Step s .callback t := by
      simp [Step, Udp.step, next, Event.isAnswer, hsending, ht]
    have hnext := h.callback ht
    simp only [uvUdpCallback, hcompleted, hprocessing, if_true, Option.some.injEq] at ht
    subst ht
    obtain ⟨es, u, hrun, hu⟩ := ih hnext hclosed rfl rfl hclosing hqueue hsending
    exact ⟨.callback :: es, u, .cons hstep hrun, hu⟩

/-- In every run whose steps are all `Sendable`: a request that is left in the queue of an open
handle has the watcher armed, the counters are those of the requests whose callback has not run,
and the callbacks run in the order of submission, once each, and all of them when the handle is
closed. -/
theorem sends_accounted (h : Reachable Init (Guarded Sendable Step) s) :
    (s.closing = false → s.sending = none → s.processing = false → s.writeQueue ≠ [] →
      s.pollOut = true ∨ s.fed = true) ∧
    s.sendQueueCount.toNat = s.accepted.length - s.called.length ∧
    s.sendQueueSize.toNat = s.waitingBytes ∧
    s.called.map Prod.fst = List.range s.called.length ∧ s.called.length ≤ s.accepted.length ∧
    (s.closed = true → s.processing = false → s.called.length = s.accepted.length) ∧
    (s.closed = true → s.processing = true →
      ∃ es t, Run Step s es t ∧ t.closed = true ∧ t.processing = false) := by
  have hs := SendsOk.of_reachable h
  have hlen := hs.toCounted.length_eq
  refine ⟨fun hclosing hsending _ hqueue => ?_, ?_, ?_, ?_, by omega, fun hclosed hprocessing => ?_,
    fun hclosed hprocessing => finishClose_completes hs hclosed hprocessing rfl⟩
  · refine .inl ((hs.armed hclosing hqueue).resolve_right fun habs => ?_)
    rw [hsending] at habs
    cases habs
  · rw [hs.count, BitVec.toNat_ofNat, Nat.mod_eq_of_lt hs.fitsCount]
  · rw [hs.size, BitVec.toNat_ofNat, Nat.mod_eq_of_lt hs.fitsBytes]
  · have htake := congrArg (List.take s.called.length) hs.ids
    rw [List.take_left' (by simp), List.take_range, Nat.min_eq_left (by omega)] at htake
    exact htake
  · obtain ⟨-, hqueue, hcompleted⟩ := hs.closed hclosed
    have hnil : s.keys = [] := by
      have hcompleted := hcompleted.resolve_left (by simp [hprocessing])
      simp [keys, hcompleted, hqueue]
    rw [hnil, List.length_nil] at hlen
    omega

/-! ### Concrete runs -/

/-- A handle that is not bound yet. -/
def fresh : Udp α where
  writeQueue := []
  writeCompletedQueue := []
  sendQueueSize := 0
  sendQueueCount := 0
  fd := -1
  closing := false
  closed := false
  pollOut := false
  fed := false
  processing := false
  sending := none
  accepted := []
  called := []

theorem init_fresh : Init (fresh : Udp α) := ⟨rfl, rfl, rfl, rfl, rfl, rfl, rfl, rfl, rfl, rfl⟩

/-- The first datagram is sent at once, the second is left by the watcher when the socket is full,
and the handle is closed. -/
theorem sends_accounted_closed : ∃ s : Udp UInt8, s.called = [(0, 0), (1, -125)] ∧
    s.called.length = s.accepted.length := by
  have hsome : ([Event.send [[1, 2]] 5 0 true, .answer (.wrote 2), .send [[3]] 5 0 true, .io,
      .answer (.fails eagain), .callback, .returned, .close, .finishClose, .callback,
      .returned].foldlM (fun s e => if Sendable s e then step s e else none)
        (fresh : Udp UInt8)).isSome = true := by rfl
  obtain ⟨-, -, -, -, -, hcalled, -⟩ := sends_accounted
    (.of_foldlM_if (.init init_fresh) (Option.some_get hsome).symm)
  exact ⟨_, by rfl, hcalled (by rfl) (by rfl)⟩

/-- The socket is full when the first datagram is sent: it sits in the queue. -/
theorem firstSend_not_armed : ∃ s : Udp UInt8, Reachable Init Step s ∧ s.closing = false ∧
    s.sending = none ∧ s.processing = false ∧ s.writeQueue ≠ [] ∧ s.pollOut = false ∧
      s.fed = false := by
  have hsome : ([Event.send [[1, 2]] 5 0 true, .answer (.fails eagain)].foldlM step
      (fresh : Udp UInt8)).isSome = true := by rfl
  exact ⟨_, .of_foldlM (.init init_fresh) (Option.some_get hsome).symm, by rfl, by rfl, by rfl,
    List.cons_ne_nil _ _, by rfl, by rfl⟩

end Udp

end LibuvWorks.Unix
