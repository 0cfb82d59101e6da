import LibuvWorks.Handle
import Mathlib.Data.List.Perm.Basic

/-!
# Taking descriptors: `uv_accept` and `uv__stream_close` of `unix/stream.c`

A stream holds the descriptors that wait for `uv_accept`: those of connections, if it listens,
or those that other processes have sent. The first is in `accepted_fd`, the others are in
`queued_fds`.
-/
open List Option

namespace LibuvWorks.Unix

/-- A descriptor: its number, and a serial that tells it from others of the same number. -/
structure Fd where
  number : ℕ
  serial : ℕ

/-- `-EAGAIN` -/
def uvEagain : ℤ := -11

/-- `-EBUSY` -/
def uvEbusy : ℤ := -16

/-- The types of clients that `uv_accept` tells apart. -/
inductive ClientType where
  | namedPipe : ClientType
  | tcp : ClientType
  | udp : ClientType
  | other : ClientType
  deriving DecidableEq

/-- A client as `uv_accept` finds it. -/
structure Client where
  type : ClientType
  fd : Option Fd
  nodelay : Bool
  keepalive : Bool

/-- The error numbers of the calls that open a client; `0` is success. -/
structure OpenCalls where
  nodelay : ℕ
  keepalive : ℕ
  nonblock : ℕ
  reuse : ℕ

def uvStreamOpen (c : Client) (fd : Fd) (calls : OpenCalls) : Client × ℤ :=
  if c.fd.any (·.number ≠ fd.number) then (c, uvEbusy)
  else if c.type = .tcp ∧ c.nodelay ∧ calls.nodelay ≠ 0 then (c, -calls.nodelay)
  else if c.type = .tcp ∧ c.keepalive ∧ calls.keepalive ≠ 0 then (c, -calls.keepalive)
  else ({ c with fd := some fd }, 0)

def uvUdpOpen (c : Client) (fd : Fd) (calls : OpenCalls) : Client × ℤ :=
  if c.fd.isSome then (c, uvEbusy)
  else if calls.nonblock ≠ 0 then (c, -calls.nonblock)
  else if calls.reuse ≠ 0 then (c, -calls.reuse)
  else ({ c with fd := some fd }, 0)

/-- The `switch` of `uv_accept`; other types of clients are refused. -/
def openClient (c : Client) (fd : Fd) (calls : OpenCalls) : Option (Client × ℤ) :=
  match c.type with
  | .namedPipe | .tcp => some (uvStreamOpen c fd calls)
  | .udp => some (uvUdpOpen c fd calls)
  | .other => none

/-- `uv__stream_queued_fds_t`; the offset is the number of entries in use. -/
structure QueuedFds where
  size : ℕ
  fds : List Fd

/-- The fields of a stream that have to do with the descriptors that it takes; `armed` says that
`POLLIN` is in the events of its watcher. The last three record which descriptors the kernel
has given, which clients have got one, and which have been closed. -/
structure Acceptor (κ : Type*) where
  fd : Option Fd
  acceptedFd : Option Fd
  queuedFds : Option QueuedFds
  armed : Bool
  taken : List Fd
  handed : List (κ × Fd)
  closed : List Fd

namespace Acceptor

variable {κ : Type*}

/-- `uv__close`, which asserts that the descriptor is not a standard one. -/
def uvClose (s : Acceptor κ) (fd : Fd) : Option (Acceptor κ) :=
  if 2 < fd.number then some { s with closed := s.closed ++ [fd] } else none

def closeAll (s : Acceptor κ) (fds : List Fd) : Option (Acceptor κ) := fds.foldlM uvClose s

def hand (s : Acceptor κ) (client : κ) (fd : Fd) : Acceptor κ :=
  { s with handed := s.handed ++ [(client, fd)] }

/-- The end of `uv_accept`, from `done` on. -/
def processQueued (s : Acceptor κ) (err : ℤ) : Option (Acceptor κ) :=
  match s.queuedFds with
  | none => some { s with acceptedFd := none, armed := s.armed || err = 0 }
  | some queue =>
    match queue.fds with
    | [] => none
    | fd :: rest =>
      some { s with
        acceptedFd := some fd
        queuedFds := if rest = [] then none else some { queue with fds := rest } }

/-- `uv_accept`, with the client after it and its result; none if an assertion fails. -/
def uvAccept (s : Acceptor κ) (client : κ) (c : Client) (calls : OpenCalls) :
    Option (Acceptor κ × Client × ℤ) :=
  match s.acceptedFd with
  | none => some (s, c, uvEagain)
  | some fd =>
    match openClient c fd calls with
    | none => some (s, c, einval)
    | some (c, err) =>
      if err = 0 then ((s.hand client fd).processQueued err).map fun s => (s, c, err)
      else (s.uvClose fd).bind fun s => (s.processQueued err).map fun s => (s, c, err)

def uvStreamClose (s : Acceptor κ) : Option (Acceptor κ) := do
  let s := { s with armed := false, fd := none }
  let s ← s.closeAll s.acceptedFd.toList
  let s := { s with acceptedFd := none }
  match s.queuedFds with
  | none => return s
  | some queue =>
    let s ← s.closeAll queue.fds
    return { s with queuedFds := none }

def uvPipePendingCount (ipc : Bool) (s : Acceptor κ) : ℕ :=
  if !ipc then 0
  else if s.acceptedFd = none then 0
  else
    match s.queuedFds with
    | none => 1
    | some queue => queue.fds.length + 1

end Acceptor

end LibuvWorks.Unix

/-!
## The books of the descriptors that a stream takes

Every descriptor that the kernel has given is handed to a client, closed, or still waits; the
operations of a stream keep the books.
-/
namespace LibuvWorks.Unix.Acceptor

variable {κ : Type*} {s t : Acceptor κ} {fd : Fd} {rest fds : List Fd} {client : κ} {c c' : Client}
  {calls : OpenCalls} {err : ℤ}

/-- The descriptors that wait, the first of them in `accepted_fd`. -/
def pending (s : Acceptor κ) : List Fd :=
  s.acceptedFd.toList ++ (s.queuedFds.map QueuedFds.fds).getD []

def given (s : Acceptor κ) : List Fd := s.handed.map Prod.snd

/-- The books while the descriptors of `rest` are still to be dealt with. -/
structure Books (s : Acceptor κ) (rest : List Fd) : Prop where
  perm : s.taken.Perm (s.given ++ s.closed ++ s.pending ++ rest)
  order : (s.given ++ s.pending ++ rest).Sublist s.taken
  number : ∀ fd ∈ s.taken, 2 < fd.number
  queue : ∀ queue, s.queuedFds = some queue →
    s.acceptedFd ≠ none ∧ queue.fds ≠ [] ∧ queue.fds.length ≤ queue.size

theorem Books.setArmed (h : Books s rest) (armed : Bool) : Books { s with armed } rest :=
  { h with }

theorem Books.number_of_mem (h : Books s (fd :: rest)) : 2 < fd.number :=
  h.number fd (h.perm.mem_iff.mpr (by simp))

theorem Books.pending_eq_nil (h : Books s rest) (hnone : s.acceptedFd = none) :
    s.queuedFds = none ∧ s.pending = [] := by
  have hqueue : s.queuedFds = none := by
    cases hq : s.queuedFds with
    | none => rfl
    | some queue => exact absurd hnone (h.queue queue hq).1
  refine ⟨hqueue, ?_⟩
  rw [pending, hnone, hqueue]
  rfl

theorem Books.receive (h : Books s (fd :: rest)) (hnone : s.acceptedFd = none) :
    Books { s with acceptedFd := some fd } rest ∧ s.pending.length = 0 ∧
      { s with acceptedFd := some fd }.pending.length = 1 := by
  obtain ⟨hqueue, hpending⟩ := h.pending_eq_nil hnone
  have hpending' : { s with acceptedFd := some fd }.pending = [fd] := by
    simp [pending, hqueue]
  refine ⟨⟨?_, ?_, h.number, by simp [hqueue]⟩, by simp [hpending], by simp [hpending']⟩
  · have hperm := h.perm
    rw [hpending] at hperm
    rw [hpending']
    simpa [given] using hperm
  · have horder := h.order
    rw [hpending] at horder
    rw [hpending']
    simpa [given] using horder

theorem Books.take (h : Books s []) (hnumber : ∀ fd ∈ fds, 2 < fd.number) :
    Books { s with taken := s.taken ++ fds } fds := by
  have hperm := h.perm
  have horder := h.order
  rw [append_nil] at hperm horder
  refine ⟨hperm.append_right _, horder.append_right _, ?_, h.queue⟩
  intro fd hmem
  exact (mem_append.mp hmem).elim (h.number fd) (hnumber fd)

theorem closeAll_eq (s : Acceptor κ) (fds : List Fd) (hnumber : ∀ fd ∈ fds, 2 < fd.number) :
    s.closeAll fds = some { s with closed := s.closed ++ fds } := by
  induction fds generalizing s with
  | nil => simp [closeAll]
  | cons fd fds ih =>
    have hfd : s.uvClose fd = some { s with closed := s.closed ++ [fd] } :=
      if_pos (hnumber fd (by simp))
    have hrest := ih { s with closed := s.closed ++ [fd] }
      fun fd' hfd' => hnumber fd' (by simp [hfd'])
    rw [append_assoc] at hrest
    rw [closeAll, foldlM_cons, hfd]
    exact hrest

theorem Books.closeAll (h : Books s (fds ++ rest)) :
    s.closeAll fds = some { s with closed := s.closed ++ fds } ∧
      Books { s with closed := s.closed ++ fds } rest := by
  refine ⟨closeAll_eq s fds fun fd hfd => h.number fd (h.perm.mem_iff.mpr (by simp [hfd])), ?_, ?_,
    h.number, h.queue⟩
  · apply h.perm.trans
    simp only [append_assoc]
    refine .append_left _ (.append_left _ ?_)
    rw [← append_assoc, ← append_assoc fds]
    exact .append_right _ perm_append_comm
  · exact (List.Sublist.append_left (sublist_append_right fds rest) _).trans h.order

/-! ### `uv_accept` -/

def queued (s : Acceptor κ) : List Fd := (s.queuedFds.map QueuedFds.fds).getD []

theorem pending_of_some (hfd : s.acceptedFd = some fd) : s.pending = fd :: s.queued := by
  rw [pending, hfd]
  rfl

/-- The books when the descriptor in `accepted_fd` has been disposed of. -/
structure Disposed (s : Acceptor κ) : Prop where
  perm : s.taken.Perm (s.given ++ s.closed ++ s.queued)
  order : (s.given ++ s.queued).Sublist s.taken
  number : ∀ fd ∈ s.taken, 2 < fd.number
  queue : ∀ queue, s.queuedFds = some queue → queue.fds ≠ [] ∧ queue.fds.length ≤ queue.size

theorem Disposed.processQueued (h : Disposed s) (err : ℤ) :
    ∃ t, s.processQueued err = some t ∧ Books t [] ∧ t.fd = s.fd ∧
      (s.queuedFds = none → t = { s with acceptedFd := none, armed := s.armed || err = 0 }) := by
  obtain ⟨hperm, horder, hnumber, hqueue⟩ := h
  rw [Acceptor.processQueued]
  cases hq : s.queuedFds with
  | none =>
    rw [queued, hq, map_none, getD_none, append_nil] at hperm horder
    refine ⟨_, rfl, ⟨?_, ?_, hnumber, by simp⟩, rfl, fun _ => rfl⟩
    · change s.taken.Perm (s.given ++ s.closed ++ [] ++ [])
      rwa [append_nil, append_nil]
    · change (s.given ++ [] ++ []).Sublist s.taken
      rwa [append_nil, append_nil]
  | some queue =>
    obtain ⟨hne, hle⟩ := hqueue queue hq
    rw [queued, hq, map_some, getD_some] at hperm horder
    obtain ⟨size, fds⟩ := queue
    cases fds with
    | nil => exact absurd rfl hne
    | cons fd rest =>
      have hpending : ∀ t : Acceptor κ, t.acceptedFd = some fd →
          t.queuedFds = (if rest = [] then none else some ⟨size, rest⟩) →
          t.pending = fd :: rest := by
        intro t hfd hqueue
        rw [pending_of_some hfd, queued, hqueue]
        cases rest <;> rfl
      refine ⟨_, rfl, ⟨?_, ?_, hnumber, ?_⟩, rfl, by simp⟩
      · rw [hpending _ rfl rfl, append_nil]
        exact hperm
      · rw [hpending _ rfl rfl, append_nil]
        exact horder
      · intro queue hqueue
        cases rest with
        | nil => cases hqueue
        | cons fd' rest =>
          cases hqueue
          have hlength := Nat.le_of_succ_le hle
          exact ⟨by simp, by simp, hlength⟩

theorem Books.queue_ne_nil (h : Books s rest) : ∀ queue, s.queuedFds = some queue →
    queue.fds ≠ [] ∧ queue.fds.length ≤ queue.size :=
  fun queue hq => (h.queue queue hq).2

theorem Books.hand (h : Books s []) (hfd : s.acceptedFd = some fd) (client : κ) :
    Disposed (s.hand client fd) := by
  have hqueue := h.queue_ne_nil
  obtain ⟨hperm, horder, hnumber, -⟩ := h
  rw [pending_of_some hfd, append_nil] at hperm horder
  have hgiven : (s.hand client fd).given = s.given ++ [fd] := by simp [given, Acceptor.hand]
  refine ⟨?_, ?_, hnumber, hqueue⟩
  · rw [hgiven]
    apply hperm.trans
    simp only [append_assoc, singleton_append]
    refine .append_left _ ?_
    exact perm_middle
  · rw [hgiven, append_assoc]
    exact horder

theorem Books.dispose (h : Books s []) (hfd : s.acceptedFd = some fd) :
    ∃ t, s.uvClose fd = some t ∧ Disposed t ∧ t = { s with closed := s.closed ++ [fd] } := by
  have hqueue := h.queue_ne_nil
  obtain ⟨hperm, horder, hnumber, -⟩ := h
  rw [pending_of_some hfd, append_nil] at hperm horder
  have hfd' : 2 < fd.number := hnumber fd (hperm.mem_iff.mpr (by simp))
  refine ⟨_, if_pos hfd', ⟨?_, ?_, hnumber, hqueue⟩, rfl⟩
  · apply hperm.trans
    simp only [append_assoc, singleton_append]
    exact .refl _
  · exact (List.Sublist.append_left (sublist_cons_self fd _) _).trans horder

/-- `uv_accept` keeps the books, and its assertions hold. Without a queue it empties
`accepted_fd`, unless it refuses the client, and arms the watcher if it succeeds. -/
theorem Books.uvAccept (h : Books s []) (client : κ) (c : Client) (calls : OpenCalls) :
    ∃ t, s.uvAccept client c calls = some t ∧ Books t.1 [] ∧ t.1.fd = s.fd ∧
      (s.queuedFds = none → t.1.queuedFds = none ∧
        (t.1.acceptedFd = s.acceptedFd ∧ t.1.armed = s.armed ∨
          t.1.acceptedFd = none ∧ ∃ fd c' err, s.acceptedFd = some fd ∧
            openClient c fd calls = some (c', err) ∧ t.1.armed = (s.armed || err = 0))) := by
  rw [Acceptor.uvAccept]
  cases hfd : s.acceptedFd with
  | none => exact ⟨_, rfl, h, rfl, fun hq => ⟨hq, .inl ⟨hfd, rfl⟩⟩⟩
  | some fd =>
    dsimp only
    cases hopen : openClient c fd calls with
    | none => exact ⟨_, rfl, h, rfl, fun hq => ⟨hq, .inl ⟨hfd, rfl⟩⟩⟩
    | some r =>
      obtain ⟨c', err⟩ := r
      dsimp only
      split_ifs with herr
      · obtain ⟨t, ht, hbooks, htfd, hnone⟩ := (h.hand hfd client).processQueued err
        refine ⟨(t, c', err), by rw [ht]; rfl, hbooks, htfd, ?_⟩
        intro hq
        rw [hnone hq]
        exact ⟨hq, .inr ⟨rfl, fd, c', err, rfl, hopen, rfl⟩⟩
      · obtain ⟨u, hu, hdisposed, rfl⟩ := h.dispose hfd
        obtain ⟨t, ht, hbooks, htfd, hnone⟩ := hdisposed.processQueued err
        refine ⟨(t, c', err), by rw [hu, bind_some, ht]; rfl, hbooks, htfd, ?_⟩
        intro hq
        rw [hnone hq]
        exact ⟨hq, .inr ⟨rfl, fd, c', err, rfl, hopen, rfl⟩⟩

/-! ### `uv__stream_close` -/

theorem Books.uvStreamClose (h : Books s []) :
    ∃ t, s.uvStreamClose = some t ∧ Books t [] ∧ t.fd = none ∧ t.acceptedFd = none ∧
      t.queuedFds = none ∧ t.armed = false := by
  have hnumber : ∀ fd ∈ s.pending, 2 < fd.number :=
    fun fd hfd => h.number fd (h.perm.mem_iff.mpr (by simp [hfd]))
  have hclose : s.uvStreamClose = some { s with
      armed := false, fd := none, acceptedFd := none, queuedFds := none
      closed := s.closed ++ s.pending } := by
    have hfirst := closeAll_eq { s with armed := false, fd := none } s.acceptedFd.toList
      fun fd hfd => hnumber fd (mem_append_left _ hfd)
    rw [Acceptor.uvStreamClose]
    simp only [hfirst, bind_eq_bind, bind_some]
    cases hq : s.queuedFds with
    | none => simp [pending, hq]
    | some queue =>
      have hrest := closeAll_eq { s with
        armed := false, fd := none, acceptedFd := none
        closed := s.closed ++ s.acceptedFd.toList } queue.fds
        fun fd hfd => hnumber fd (mem_append_right _ (by simp [hq, hfd]))
      rw [hq] at hrest
      dsimp only
      rw [hrest]
      simp [pending, hq]
  refine ⟨_, hclose, ⟨?_, ?_, h.number, by simp⟩, rfl, rfl, rfl, rfl⟩
  · have hperm := h.perm
    simpa [pending, given] using hperm
  · have horder := h.order
    rw [append_nil] at horder
    change (s.given ++ [] ++ []).Sublist s.taken
    rw [append_nil, append_nil]
    exact (sublist_append_left _ _).trans horder

end LibuvWorks.Unix.Acceptor
