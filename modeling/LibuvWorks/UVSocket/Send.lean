import LibuvWorks.UVSocket.Server
import Mathlib.Algebra.Group.Nat.Defs
import Mathlib.Data.List.Infix

/-!
# What a connection sends: `send` and `AfterSend`

All the sends of a connection share one `writebuffer` and one `write_req`, which libuv uses
until it calls `AfterSend`. `CTCPServer` does not wait for that. `CTCPClient` locks a mutex in
`send` that `AfterSend` unlocks, but a thread that has locked it may lock it again.
-/
namespace LibuvWorks.UVSocket

open List Option Function Nat
open Function (update)
open Transition

/-- A write that libuv has taken: where in the buffer it is, and where it ends. -/
structure Write where
  off : ℕ
  len : ℕ

/-- The `writebuffer` of a connection and the writes from it, the oldest first; the bytes that
`uv_write` took and those that the socket sent; and whether the buffer or the request was used
again too soon. After a write has failed the socket sends no more. -/
structure Writer where
  base : List UInt8
  len : ℕ
  inFlight : List Write
  failed : Bool
  accepted : List UInt8
  sent : List UInt8
  misused : Bool

namespace Writer

variable (w : Writer)

@[simps] def reuse : Writer := { w with misused := w.misused || !w.inFlight.isEmpty }

/-- `realloc` of the buffer, whose `len` is a `ULONG`. -/
def grow (n : ℕ) : Writer :=
  if w.len < n then
    { w.reuse with base := (w.base ++ List.replicate n 0).take n, len := n % 2 ^ 32 }
  else w

/-- `memcpy` into the buffer. -/
@[simps!] def copy (data : List UInt8) : Writer :=
  { w.reuse with base := data ++ w.base.drop data.length }

/-- `uv_write` of the buffer, whose length `uv_buf_init` takes as an `unsigned int`. -/
def uvWrite (data : List UInt8) (ret : ℤ) : Writer :=
  if ret ≠ 0 then w.reuse
  else
    { w.reuse with
      inFlight := w.inFlight ++ [⟨0, data.length % 2 ^ 32⟩]
      accepted := w.accepted ++ data }

/-- What both classes do to send some bytes; `ret` is what `uv_write` returns. -/
def write (data : List UInt8) (ret : ℤ) : Writer :=
  ((w.grow data.length).copy data).uvWrite data ret

/-- The bytes of a write that are still to be sent, as they are in the buffer now. -/
def rest (write : Write) : List UInt8 := (w.base.drop write.off).take (write.len - write.off)

/-- The socket sends `n` bytes of the oldest write. -/
def transmit (n : ℕ) : Option Writer :=
  match w.inFlight with
  | [] => none
  | write :: later =>
    if w.failed = false ∧ write.off + n ≤ write.len then
      some { w with
        sent := w.sent ++ (w.rest write).take n
        inFlight := { write with off := write.off + n } :: later }
    else none

/-- The oldest write ends: all of it is sent, or it failed. -/
def complete (status : ℤ) : Option Writer :=
  match w.inFlight with
  | [] => none
  | write :: later =>
    if status = 0 then
      if write.off = write.len then some { w with inFlight := later } else none
    else some { w with inFlight := later, failed := true }

def Fresh (w : Writer) : Prop :=
  w.len ≤ w.base.length ∧ w.inFlight = [] ∧ w.accepted = [] ∧ w.sent = [] ∧ w.misused = false

/-- The socket sends what was accepted, in order; the buffer and the request are left alone while
a write uses them. -/
structure InOrder (w : Writer) : Prop where
  misused : w.misused = false
  sent : w.sent <+: w.accepted
  all : w.inFlight = [] → w.failed = false → w.sent = w.accepted

end Writer

/-! ### The two classes -/

/-- A `CTCPServer`, and the writer of each `CSockData`. -/
structure SendServer where
  server : Server
  writer : ℕ → Writer

namespace SendServer

variable (s : SendServer)

/-- `CTCPServer::send`, and what it returns -/
def send (clientid : ℤ) (data : List UInt8) (ret : ℤ) : SendServer × ℤ :=
  match s.server.clients.find? (fun client => client.1 = clientid) with
  | none => (s, -1)
  | some client =>
    ({ s with writer := update s.writer client.2 ((s.writer client.2).write data ret) },
      if ret ≠ 0 then 0 else 1)

/-- Anything that happens to the server, a send, and what the sockets do. -/
inductive Event where
  | server (e : Server.Event) : Event
  | send (clientid : ℤ) (data : List UInt8) (ret : ℤ) : Event
  | transmit (data n : ℕ) : Event
  | afterSend (data : ℕ) (status : ℤ) : Event

def step (s : SendServer) : Event → Option SendServer
  | .server e => (s.server.step e).map fun server => { s with server := server }
  | .send clientid data ret => some (s.send clientid data ret).1
  | .transmit data n =>
    ((s.writer data).transmit n).map fun w => { s with writer := update s.writer data w }
  | .afterSend data status =>
    ((s.writer data).complete status).map fun w => { s with writer := update s.writer data w }

def Init (s : SendServer) : Prop := Server.Init s.server ∧ ∀ data, (s.writer data).Fresh

def Step (s : SendServer) (e : Event) (t : SendServer) : Prop := step s e = some t

/-- A send to a client finds no write of that client in flight; what is taken is shorter than
`2 ^ 32`. -/
def Free (s : SendServer) : Event → Prop
  | .send clientid data ret =>
    ∀ client ∈ s.server.clients.find? (fun client => client.1 = clientid),
      (s.writer client.2).inFlight = [] ∧ (ret = 0 → data.length < 2 ^ 32)
  | _ => True

instance (s : SendServer) (e : Event) : Decidable (Free s e) :=
  match e with
  | .send clientid data ret => inferInstanceAs (Decidable (∀ client ∈
      s.server.clients.find? (fun client => client.1 = clientid),
      (s.writer client.2).inFlight = [] ∧ (ret = 0 → data.length < 2 ^ 32)))
  | .server _ | .transmit _ _ | .afterSend _ _ => inferInstanceAs (Decidable True)

end SendServer

/-- A critical section: the thread that is in it, and how many times it has entered. -/
structure CriticalSection where
  owner : Option ℕ
  entered : ℕ

/-- `uv_mutex_lock`; `none` when the thread has to wait. -/
def uvMutexLock (m : CriticalSection) (thread : ℕ) : Option CriticalSection :=
  match m.owner with
  | none => some ⟨some thread, 1⟩
  | some owner => if owner = thread then some ⟨some thread, m.entered + 1⟩ else none

/-- `uv_mutex_unlock`; when the thread is not in the section it may do anything: `other`. -/
def uvMutexUnlock (m : CriticalSection) (thread : ℕ) (other : CriticalSection) :
    CriticalSection :=
  if m.owner = some thread then
    if m.entered = 1 then ⟨none, 0⟩ else { m with entered := m.entered - 1 }
  else other

/-- A connection of a `CTCPClient`: its writer and `write_mutex_handle_`. -/
structure SendClient where
  writer : Writer
  mutex : CriticalSection

namespace SendClient

variable (s : SendClient)

/-- `CTCPClient::send` in a thread, and what it returns; `none` while it waits for the mutex. -/
def send (thread : ℕ) (data : Option (List UInt8)) (ret : ℤ) : Option (SendClient × ℤ) :=
  match data with
  | none => some (s, 0)
  | some data =>
    if data.length ≤ 0 then some (s, 0)
    else
      (uvMutexLock s.mutex thread).map fun mutex =>
        let s : SendClient := ⟨s.writer.write data ret, mutex⟩
        -- The thread has just locked it, so `other` does not matter.
        if ret ≠ 0 then ({ s with mutex := uvMutexUnlock s.mutex thread s.mutex }, 0) else (s, 1)

/-- `AfterSend`, in the thread that runs the loop. -/
def afterSend (thread : ℕ) (status : ℤ) (other : CriticalSection) : Option SendClient :=
  (s.writer.complete status).map fun w => ⟨w, uvMutexUnlock s.mutex thread other⟩

inductive Event where
  | send (thread : ℕ) (data : Option (List UInt8)) (ret : ℤ) : Event
  | transmit (n : ℕ) : Event
  | afterSend (thread : ℕ) (status : ℤ) (other : CriticalSection) : Event

def step (s : SendClient) : Event → Option SendClient
  | .send thread data ret => (s.send thread data ret).map Prod.fst
  | .transmit n => (s.writer.transmit n).map fun w => { s with writer := w }
  | .afterSend thread status other => s.afterSend thread status other

def Init (s : SendClient) : Prop := s.writer.Fresh ∧ s.mutex = ⟨none, 0⟩

def Step (s : SendClient) (e : Event) (t : SendClient) : Prop := step s e = some t

/-- A thread that is in the mutex sends only when no write is in flight; what is taken is shorter
than `2 ^ 32`. -/
def Free (s : SendClient) : Event → Prop
  | .send thread (some data) ret =>
    (s.mutex.owner = some thread → data ≠ [] → s.writer.inFlight = []) ∧
      (ret = 0 → data.length < 2 ^ 32)
  | _ => True

instance (s : SendClient) (e : Event) : Decidable (Free s e) :=
  match e with
  | .send _ (some _) _ => inferInstanceAs (Decidable ((_ → _ → _) ∧ (_ → _)))
  | .send _ none _ | .transmit _ | .afterSend _ _ _ => inferInstanceAs (Decidable True)

end SendClient

/-! ### One writer -/

namespace Writer

variable {w v : Writer} {data : List UInt8} {ret : ℤ}

def pending (w : Writer) : List UInt8 := w.inFlight.flatMap w.rest

/-- At most one write uses the buffer, and what it has yet to send is there. -/
structure Orderly (w : Writer) : Prop where
  misused : w.misused = false
  len : w.len ≤ w.base.length
  single : w.inFlight.length ≤ 1
  sent : w.sent <+: w.accepted
  pending : w.failed = false → w.accepted = w.sent ++ w.pending

theorem Orderly.of_fresh (h : Fresh w) : Orderly w := by
  obtain ⟨hlen, hfree, haccepted, hsent, hmisused⟩ := h
  refine ⟨hmisused, hlen, ?_, ?_, fun _ => ?_⟩
  · simp [hfree]
  · rw [hsent]
    exact nil_prefix
  · simp [Writer.pending, hfree, haccepted, hsent]

theorem Orderly.inOrder (h : Orderly w) : InOrder w := by
  refine { h with all := fun hfree hfailed => ?_ }
  have haccepted := h.pending hfailed
  simpa [Writer.pending, hfree] using haccepted.symm

theorem reuse_of_free (hfree : w.inFlight = []) : w.reuse = w := by
  cases w
  simp_all [reuse]

theorem grow_spec (hfree : w.inFlight = []) (hlen : w.len ≤ w.base.length) (n : ℕ) :
    ∃ base len, w.grow n = { w with base := base, len := len } ∧ n ≤ base.length ∧
      len ≤ base.length := by
  unfold grow
  split
  · have hlength : ((w.base ++ replicate n 0).take n).length = n := by simp
    refine ⟨_, _, by rw [reuse_of_free hfree], hlength.ge, ?_⟩
    rw [hlength]
    exact mod_le n (2 ^ 32)
  · next hge => exact ⟨w.base, w.len, rfl, (not_lt.mp hge).trans hlen, hlen⟩

theorem write_spec (data : List UInt8) (ret : ℤ) (hfree : w.inFlight = [])
    (hlen : w.len ≤ w.base.length) :
    ∃ old len, len ≤ (data ++ old).length ∧ w.write data ret =
      if ret ≠ 0 then { w with base := data ++ old, len := len }
      else
        { w with
          base := data ++ old
          len := len
          inFlight := [⟨0, data.length % 2 ^ 32⟩]
          accepted := w.accepted ++ data } := by
  obtain ⟨base, len, hgrow, hdata, hbase⟩ := grow_spec hfree hlen data.length
  refine ⟨base.drop data.length, len, ?_, ?_⟩
  · simpa [Nat.add_sub_cancel' hdata] using hbase
  · simp [write, hgrow, copy, uvWrite, reuse, hfree]

theorem Orderly.write (h : Orderly w) (hfree : w.inFlight = [])
    (hshort : ret = 0 → data.length < 2 ^ 32) : Orderly (w.write data ret) := by
  obtain ⟨old, len, hlen, heq⟩ := write_spec data ret hfree h.len
  have hpending := h.pending
  simp only [Writer.pending, hfree, flatMap_nil, append_nil] at hpending
  rw [heq]
  split
  · refine ⟨h.misused, hlen, ?_, h.sent, ?_⟩
    · simp [hfree]
    · simpa [Writer.pending, hfree] using hpending
  · next hret =>
    have hdata := mod_eq_of_lt (hshort (not_not.mp hret))
    refine ⟨h.misused, hlen, Nat.le_refl 1, ?_, fun hfailed => ?_⟩
    · exact h.sent.trans (prefix_append _ _)
    · simp only [hpending hfailed, Writer.pending, hdata]
      simp [rest]

theorem Orderly.eq_single (h : Orderly w) {write : Write} {later : List Write}
    (hfree : w.inFlight = write :: later) : later = [] := by
  have hsingle := h.single
  rw [hfree] at hsingle
  exact eq_nil_of_length_eq_zero (le_zero.mp (le_of_succ_le_succ hsingle))

theorem rest_append (write : Write) (n : ℕ) :
    (w.rest write).take n ++ w.rest { write with off := write.off + n } = w.rest write := by
  have hdrop : w.rest { write with off := write.off + n } = (w.rest write).drop n := by
    simp only [rest, drop_take, drop_drop]
    congr 1
    omega
  rw [hdrop, take_append_drop]

theorem Orderly.transmit {n : ℕ} (h : Orderly w) (hstep : w.transmit n = some v) :
    Orderly v := by
  unfold Writer.transmit at hstep
  split at hstep
  · cases hstep
  · next write later hfree =>
    obtain rfl := h.eq_single hfree
    obtain ⟨⟨hfailed, -⟩, rfl⟩ := by simpa only [ite_none_right_eq_some, Option.some.injEq]
      using hstep
    have haccepted : w.accepted =
        (w.sent ++ (w.rest write).take n) ++ w.rest { write with off := write.off + n } := by
      rw [append_assoc, rest_append, h.pending hfailed]
      simp [Writer.pending, hfree]
    refine ⟨h.misused, h.len, Nat.le_refl 1, ?_, fun _ => ?_⟩
    · rw [haccepted]
      exact prefix_append _ _
    · simpa [Writer.pending, rest] using haccepted

theorem Orderly.complete {status : ℤ} (h : Orderly w) (hstep : w.complete status = some v) :
    Orderly v ∧ v.inFlight = [] := by
  unfold Writer.complete at hstep
  split at hstep
  · cases hstep
  · next write later hfree =>
    obtain rfl := h.eq_single hfree
    split at hstep
    · obtain ⟨hend, rfl⟩ := by simpa only [ite_none_right_eq_some, Option.some.injEq]
        using hstep
      refine ⟨⟨h.misused, h.len, Nat.zero_le 1, h.sent, fun hfailed => ?_⟩, rfl⟩
      rw [h.pending hfailed]
      simp [Writer.pending, hfree, rest, hend]
    · obtain rfl := Option.some.inj hstep
      exact ⟨⟨h.misused, h.len, Nat.zero_le 1, h.sent, fun habs => nomatch habs⟩, rfl⟩

end Writer

/-! ### Runs -/

namespace SendServer

variable {s t : SendServer} {e : Event}

theorem orderly_step (h : ∀ data, (s.writer data).Orderly) (hfree : Free s e)
    (hstep : Step s e t) (data : ℕ) : (t.writer data).Orderly := by
  have hupdate : ∀ {d : ℕ} {w : Writer}, w.Orderly → (update s.writer d w data).Orderly := by
    intro d w hw
    by_cases hd : data = d
    · rwa [hd, update_self]
    · rw [update_of_ne hd]
      exact h data
  cases e with
  | server e =>
    obtain ⟨server, -, rfl⟩ := map_eq_some_iff.mp hstep
    exact h data
  | send clientid bytes ret =>
    cases hstep
    unfold send
    split
    · exact h data
    · next client hfind =>
      obtain ⟨hnone, hshort⟩ := hfree client hfind
      exact hupdate ((h client.2).write hnone hshort)
  | transmit d n =>
    obtain ⟨w, hw, rfl⟩ := map_eq_some_iff.mp hstep
    exact hupdate ((h d).transmit hw)
  | afterSend d status =>
    obtain ⟨w, hw, rfl⟩ := map_eq_some_iff.mp hstep
    exact hupdate ((h d).complete hw).1

theorem orderly_of_reachable (h : Reachable Init (Guarded Free Step) s) :
    ∀ data, (s.writer data).Orderly :=
  h.invariant (P := fun s => ∀ data, (s.writer data).Orderly)
    (fun _ hinit data => .of_fresh (hinit.2 data))
    fun _ _ _ _ hs hstep => orderly_step hs hstep.1 hstep.2

end SendServer

namespace SendClient

variable {s t : SendClient} {e : Event} {thread : ℕ} {ret : ℤ}

structure Locked (s : SendClient) : Prop where
  orderly : s.writer.Orderly
  owner : s.mutex.owner = none → s.writer.inFlight = []

theorem owner_of_lock {m m' : CriticalSection} (h : uvMutexLock m thread = some m') :
    m'.owner = some thread ∧ (m.owner = none ∨ m.owner = some thread) := by
  unfold uvMutexLock at h
  split at h
  · next howner =>
    cases h
    exact ⟨rfl, .inl howner⟩
  · next owner howner =>
    obtain ⟨rfl, rfl⟩ := by simpa only [ite_none_right_eq_some, Option.some.injEq] using h
    exact ⟨rfl, .inr howner⟩

theorem Locked.send {data : Option (List UInt8)} (h : Locked s)
    (hfree : Free s (.send thread data ret)) (hstep : Step s (.send thread data ret) t) :
    Locked t := by
  obtain ⟨⟨u, r⟩, hsend, rfl⟩ := map_eq_some_iff.mp hstep
  unfold SendClient.send at hsend
  cases data with
  | none =>
    cases hsend
    exact h
  | some data =>
    obtain ⟨howner, hshort⟩ := hfree
    simp only at hsend
    split at hsend
    · cases hsend
      exact h
    · next hdata =>
      obtain ⟨mutex, hlock, hmap⟩ := map_eq_some_iff.mp hsend
      obtain ⟨hlocked, howned⟩ := owner_of_lock hlock
      have hfree : s.writer.inFlight = [] := by
        refine howned.elim h.owner fun howner' => howner howner' ?_
        rintro rfl
        exact hdata (Nat.le_refl 0)
      have hwrite := h.orderly.write hfree hshort
      split at hmap
      · next hret =>
        obtain ⟨rfl, -⟩ := Prod.mk.inj hmap
        refine ⟨hwrite, fun _ => ?_⟩
        obtain ⟨old, len, -, heq⟩ := Writer.write_spec data ret hfree h.orderly.len
        rw [heq, if_pos hret]
        exact hfree
      · obtain ⟨rfl, -⟩ := Prod.mk.inj hmap
        exact ⟨hwrite, fun habs => by simp [hlocked] at habs⟩

theorem Locked.step (h : Locked s) (hfree : Free s e) (hstep : Step s e t) : Locked t := by
  cases e with
  | send thread data ret => exact h.send hfree hstep
  | transmit n =>
    obtain ⟨w, hw, rfl⟩ := map_eq_some_iff.mp hstep
    refine ⟨h.orderly.transmit hw, fun howner => ?_⟩
    simp [Writer.transmit, h.owner howner] at hw
  | afterSend thread status other =>
    obtain ⟨w, hw, rfl⟩ := map_eq_some_iff.mp hstep
    obtain ⟨horderly, hnone⟩ := h.orderly.complete hw
    exact ⟨horderly, fun _ => hnone⟩

theorem Locked.of_reachable (h : Reachable Init (Guarded Free Step) s) : Locked s :=
  h.invariant (fun _ hinit => ⟨.of_fresh hinit.1, fun _ => hinit.1.2.1⟩)
    fun _ _ _ _ hs hstep => hs.step hstep.1 hstep.2

end SendClient

/-- Of both classes: when no send finds a write of its connection in flight, each connection sends
what was accepted, in order, and nothing in use is touched. -/
theorem sent_in_order {s : SendServer} {c : SendClient}
    (hs : Reachable SendServer.Init (Guarded SendServer.Free SendServer.Step) s)
    (hc : Reachable SendClient.Init (Guarded SendClient.Free SendClient.Step) c) :
    (∀ data, (s.writer data).InOrder) ∧ c.writer.InOrder :=
  ⟨fun data => (SendServer.orderly_of_reachable hs data).inOrder,
    (SendClient.Locked.of_reachable hc).orderly.inOrder⟩

/-! ### Concrete runs -/

def Writer.fresh : Writer := ⟨[], 0, [], false, [], [], false⟩

def SendServer.fresh : SendServer :=
  ⟨⟨false, [], 0, 0, fun _ => 0, fun _ => .unset, fun _ => false, []⟩, fun _ => .fresh⟩

def SendClient.fresh : SendClient := ⟨.fresh, ⟨none, 0⟩⟩

theorem Writer.fresh_fresh : Writer.fresh.Fresh := ⟨Nat.le_refl 0, rfl, rfl, rfl, rfl⟩

theorem SendServer.init_fresh : SendServer.Init .fresh :=
  ⟨⟨rfl, rfl, rfl, fun _ => rfl, rfl⟩, fun _ => Writer.fresh_fresh⟩

theorem SendClient.init_fresh : SendClient.Init .fresh := ⟨Writer.fresh_fresh, rfl⟩

def SendServer.connected : List SendServer.Event :=
  [.server (.start true), .server (.connection 0 ⟨0, 0, 0⟩ false)]

def SendServer.inTurn : List SendServer.Event :=
  connected ++ [.send 1 [1, 2] 0, .transmit 0 1, .transmit 0 1, .afterSend 0 0, .send 1 [3] 0,
    .transmit 0 1]

def SendClient.inTurn : List SendClient.Event :=
  [.send 0 (some [1, 2]) 0, .transmit 1, .transmit 1, .afterSend 1 0 ⟨none, 0⟩,
    .send 0 (some [3]) 0, .transmit 1]

theorem sent_in_order_twice :
    ∃ (s : SendServer) (c : SendClient), (s.writer 0).sent = [1, 2, 3] ∧
      c.writer.sent = [1, 2, 3] ∧ (∀ data, (s.writer data).InOrder) ∧ c.writer.InOrder := by
  have hs : (SendServer.inTurn.foldlM
      (fun s e => if SendServer.Free s e then s.step e else none) .fresh).isSome = true := by rfl
  have hc : (SendClient.inTurn.foldlM
      (fun c e => if SendClient.Free c e then c.step e else none) .fresh).isSome = true := by rfl
  exact ⟨_, _, by rfl, by rfl, sent_in_order
    (.of_foldlM_if (.init SendServer.init_fresh) (Option.some_get hs).symm)
    (.of_foldlM_if (.init SendClient.init_fresh) (Option.some_get hc).symm)⟩

/-- A second send before the first has been sent; the client sends both from one thread. -/
def SendServer.tooSoon : List SendServer.Event :=
  connected ++ [.send 1 [1] 0, .send 1 [2] 0, .transmit 0 1, .afterSend 0 0, .transmit 0 1]

def SendClient.tooSoon : List SendClient.Event :=
  [.send 0 (some [1]) 0, .send 0 (some [2]) 0, .transmit 1, .afterSend 0 0 ⟨none, 0⟩,
    .transmit 1]

/-- With either class the socket then sends the second twice. -/
theorem second_send_twice :
    (∃ s : SendServer, Reachable SendServer.Init SendServer.Step s ∧
        (s.writer 0).misused = true ∧ (s.writer 0).accepted = [1, 2] ∧
        (s.writer 0).sent = [2, 2]) ∧
      ∃ c : SendClient, Reachable SendClient.Init SendClient.Step c ∧ c.writer.misused = true ∧
        c.writer.accepted = [1, 2] ∧ c.writer.sent = [2, 2] := by
  have hs : (SendServer.tooSoon.foldlM SendServer.step .fresh).isSome = true := by rfl
  have hc : (SendClient.tooSoon.foldlM SendClient.step .fresh).isSome = true := by rfl
  refine ⟨⟨_, .of_foldlM (.init SendServer.init_fresh) (Option.some_get hs).symm, ?_⟩,
    ⟨_, .of_foldlM (.init SendClient.init_fresh) (Option.some_get hc).symm, ?_⟩⟩
  · exact ⟨by rfl, by rfl, by rfl⟩
  · exact ⟨by rfl, by rfl, by rfl⟩

end LibuvWorks.UVSocket
