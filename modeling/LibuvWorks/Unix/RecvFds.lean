import LibuvWorks.Lib.Transition
import LibuvWorks.Unix.Accept

/-!
# Descriptors over unix pipes: `uv__stream_recv_cmsg` of `unix/stream.c`

A message brings descriptors in control blocks. If one cannot be queued, the rest of its block
is closed, but the loop over the blocks ends as well, and the descriptors of later blocks are
lost.
-/
namespace LibuvWorks.Unix.Acceptor

open Transition List

variable {κ : Type*} {s t : Acceptor κ} {fd : Fd} {rest : List Fd} {fds : List (Fd × Bool)}
  {allocated : Bool}

/-! ### The code -/

/-- A block of control data. With a descriptor stands whether an allocation that is made to
queue it succeeds. -/
inductive ControlBlock where
  | other : ControlBlock
  | rights (fds : List (Fd × Bool)) : ControlBlock

/-- The descriptor is put in a queue. -/
def putFd (s : Acceptor κ) (queue : QueuedFds) (fd : Fd) : Option (Acceptor κ × Bool) :=
  if queue.fds.length < queue.size then
    some ({ s with queuedFds := some { queue with fds := queue.fds ++ [fd] } }, true)
  else none

/-- `uv__stream_queue_fd`; the result is whether it succeeds, and there is none if a write is
out of bounds. -/
def uvStreamQueueFd (s : Acceptor κ) (fd : Fd) (allocated : Bool) : Option (Acceptor κ × Bool) :=
  match s.queuedFds with
  | none => if allocated then s.putFd ⟨8, []⟩ fd else some (s, false)
  | some queue =>
    if queue.size = queue.fds.length then
      if allocated then s.putFd { queue with size := queue.size + 8 } fd else some (s, false)
    else s.putFd queue fd

def recvBlock (s : Acceptor κ) : List (Fd × Bool) → Option (Acceptor κ × Bool)
  | [] => some (s, true)
  | (fd, allocated) :: fds =>
    if s.acceptedFd = none then recvBlock { s with acceptedFd := some fd } fds
    else
      match s.uvStreamQueueFd fd allocated with
      | none => none
      | some (s, true) => recvBlock s fds
      | some (s, false) => (s.closeAll (fd :: fds.map Prod.fst)).map fun s => (s, false)

def uvStreamRecvCmsg (s : Acceptor κ) : List ControlBlock → Option (Acceptor κ × Bool)
  | [] => some (s, true)
  | .other :: blocks => uvStreamRecvCmsg s blocks
  | .rights fds :: blocks =>
    match s.recvBlock fds with
    | some (s, true) => uvStreamRecvCmsg s blocks
    | r => r

def ControlBlock.descriptors : ControlBlock → List Fd
  | .other => []
  | .rights fds => fds.map Prod.fst

/-- What happens to a pipe: a message is read, the user accepts a descriptor, or the handle is
closed. -/
inductive Event (κ : Type*) where
  | recv (blocks : List ControlBlock) : Event κ
  | accept (client : κ) (c : Client) (calls : OpenCalls) : Event κ
  | close : Event κ

def step (s : Acceptor κ) : Event κ → Option (Acceptor κ)
  | .recv blocks =>
    if s.fd = none then none
    else
      ({ s with taken := s.taken ++ blocks.flatMap ControlBlock.descriptors }.uvStreamRecvCmsg blocks).map
        Prod.fst
  | .accept client c calls => (s.uvAccept client c calls).map Prod.fst
  | .close => if s.fd = none then none else s.uvStreamClose

def Step (s : Acceptor κ) (e : Event κ) (t : Acceptor κ) : Prop := s.step e = some t

structure Init (s : Acceptor κ) : Prop where
  fd : s.fd ≠ none
  acceptedFd : s.acceptedFd = none
  queuedFds : s.queuedFds = none
  taken : s.taken = []
  handed : s.handed = []
  closed : s.closed = []

/-! ### When nothing is lost -/

/-- The block fits behind `pending` descriptors and a queue of a size: the pending descriptors
and the size after it, unless an allocation fails. -/
def fits : ℕ → ℕ → List (Fd × Bool) → Option (ℕ × ℕ)
  | pending, size, [] => some (pending, size)
  | pending, size, (_, allocated) :: fds =>
    if pending = 0 then fits 1 size fds
    else if pending = size + 1 then
      if allocated then fits (pending + 1) (size + 8) fds else none
    else fits (pending + 1) size fds

/-- No descriptors follow, in later blocks, the one for which an allocation fails. -/
def Keeps : ℕ → ℕ → List ControlBlock → Prop
  | _, _, [] => True
  | pending, size, .other :: blocks => Keeps pending size blocks
  | pending, size, .rights fds :: blocks =>
    match fits pending size fds with
    | some (pending, size) => Keeps pending size blocks
    | none => blocks.flatMap ControlBlock.descriptors = []

def queueSize (s : Acceptor κ) : ℕ := (s.queuedFds.map QueuedFds.size).getD 0

/-- A message keeps its descriptors, and none of them is a standard one. -/
def Careful (s : Acceptor κ) : Event κ → Prop
  | .recv blocks =>
    (∀ fd ∈ blocks.flatMap ControlBlock.descriptors, 2 < fd.number) ∧
      Keeps s.pending.length s.queueSize blocks
  | _ => True

/-! ### The books -/

theorem pending_of_ne_none (hsome : s.acceptedFd ≠ none) :
    s.pending.length = s.queued.length + 1 := by
  obtain ⟨fd, hfd⟩ := Option.ne_none_iff_exists'.mp hsome
  rw [pending_of_some hfd, length_cons]

theorem Books.put (h : Books s (fd :: rest)) (hsome : s.acceptedFd ≠ none) (queue : QueuedFds)
    (hqueue : queue.fds = s.queued) (hroom : queue.fds.length < queue.size) :
    ∃ t, s.putFd queue fd = some (t, true) ∧ Books t rest ∧ t.acceptedFd ≠ none ∧
      t.pending.length = s.pending.length + 1 ∧ t.queueSize = queue.size ∧ t.fd = s.fd := by
  have hpending : { s with queuedFds := some { queue with fds := queue.fds ++ [fd] } }.pending =
      s.pending ++ [fd] := by
    rw [hqueue]
    exact (append_assoc ..).symm
  refine ⟨_, if_pos hroom, ⟨?_, ?_, h.number, ?_⟩, hsome, ?_, rfl, rfl⟩
  · rw [hpending]
    have hperm := h.perm
    simpa [given] using hperm
  · rw [hpending]
    have horder := h.order
    simpa [given] using horder
  · intro queue' hqueue'
    cases hqueue'
    refine ⟨hsome, by simp, ?_⟩
    rw [length_append]
    exact hroom
  · rw [hpending, length_append]
    rfl

def Full (s : Acceptor κ) : Prop := s.pending.length = s.queueSize + 1

instance : Decidable s.Full := inferInstanceAs (Decidable (_ = _))

theorem Books.queueFd (h : Books s (fd :: rest)) (hsome : s.acceptedFd ≠ none) (allocated : Bool) :
    if s.Full ∧ allocated = false then s.uvStreamQueueFd fd allocated = some (s, false)
    else ∃ t, s.uvStreamQueueFd fd allocated = some (t, true) ∧ Books t rest ∧
      t.acceptedFd ≠ none ∧ t.pending.length = s.pending.length + 1 ∧
      t.queueSize = (if s.Full then s.queueSize + 8 else s.queueSize) ∧ t.fd = s.fd := by
  have hlength := pending_of_ne_none hsome
  rw [uvStreamQueueFd]
  cases hq : s.queuedFds with
  | none =>
    have hqueued : s.queued = [] := by rw [queued, hq]; rfl
    have hsize : s.queueSize = 0 := by rw [queueSize, hq]; rfl
    have hfull : s.Full := by rw [Full, hlength, hqueued, hsize]; rfl
    cases allocated with
    | false => rw [if_pos ⟨hfull, rfl⟩]; rfl
    | true =>
      rw [if_neg (by simp), if_pos hfull, hsize]
      exact h.put hsome ⟨8, []⟩ hqueued.symm (by simp)
  | some queue =>
    have hqueued : s.queued = queue.fds := by rw [queued, hq]; rfl
    have hsize : s.queueSize = queue.size := by rw [queueSize, hq]; rfl
    have hle := (h.queue queue hq).2.2
    have hfull : s.Full ↔ queue.size = queue.fds.length := by
      rw [Full, hlength, hqueued]
      omega
    dsimp only
    by_cases hcase : queue.size = queue.fds.length
    · rw [if_pos hcase]
      cases allocated with
      | false => rw [if_pos ⟨hfull.mpr hcase, rfl⟩]; rfl
      | true =>
        rw [if_neg (by simp), if_pos (hfull.mpr hcase), hsize]
        exact h.put hsome { queue with size := queue.size + 8 } hqueued.symm
          (by dsimp only; omega)
    · rw [if_neg hcase, if_neg (fun habs => hcase (hfull.mp habs.1)),
        if_neg (fun habs => hcase (hfull.mp habs)), hsize]
      exact h.put hsome queue hqueued.symm (by omega)

theorem Books.recvBlock (h : Books s (fds.map Prod.fst ++ rest)) :
    ∃ t ok, s.recvBlock fds = some (t, ok) ∧ Books t rest ∧ t.fd = s.fd ∧
      (fits s.pending.length s.queueSize fds =
        if ok then some (t.pending.length, t.queueSize) else none) := by
  induction fds generalizing s with
  | nil => exact ⟨s, true, rfl, h, rfl, rfl⟩
  | cons p fds ih =>
    obtain ⟨fd, allocated⟩ := p
    rw [Acceptor.recvBlock, fits]
    by_cases hnone : s.acceptedFd = none
    · obtain ⟨hbooks, hzero, hone⟩ := Books.receive h hnone
      obtain ⟨t, ok, ht, hbooks', htfd, hfits⟩ := ih hbooks
      rw [if_pos hnone, if_pos hzero, ← hone]
      exact ⟨t, ok, ht, hbooks', htfd, hfits⟩
    · have hpos : s.pending.length ≠ 0 := by
        rw [pending_of_ne_none hnone]
        exact Nat.succ_ne_zero _
      have hqueueFd := Books.queueFd h hnone allocated
      rw [if_neg hnone, if_neg hpos]
      by_cases hfail : s.Full ∧ allocated = false
      · rw [if_pos hfail] at hqueueFd
        have hblock : Books s ((fd :: fds.map Prod.fst) ++ rest) := h
        obtain ⟨hclose, hbooks⟩ := hblock.closeAll
        refine ⟨_, false, ?_, hbooks, rfl, ?_⟩
        · rw [hqueueFd]
          dsimp only
          rw [hclose]
          rfl
        · have hfull : s.pending.length = s.queueSize + 1 := hfail.1
          rw [hfail.2, if_pos hfull]
          rfl
      · rw [if_neg hfail] at hqueueFd
        obtain ⟨u, hu, hbooks, hsome, hpending, hsize, hfd⟩ := hqueueFd
        obtain ⟨t, ok, ht, hbooks', htfd, hfits⟩ := ih hbooks
        rw [hu]
        refine ⟨t, ok, ht, hbooks', htfd.trans hfd, ?_⟩
        rw [← hfits, hpending]
        by_cases hfull : s.Full
        · have halloc : allocated = true := by
            cases allocated with
            | true => rfl
            | false => exact absurd ⟨hfull, rfl⟩ hfail
          rw [hsize, if_pos hfull, halloc]
          exact if_pos hfull
        · rw [hsize, if_neg hfull]
          exact if_neg hfull

theorem Books.recvCmsg {blocks : List ControlBlock}
    (h : Books s (blocks.flatMap ControlBlock.descriptors))
    (hkeeps : Keeps s.pending.length s.queueSize blocks) :
    ∃ t ok, s.uvStreamRecvCmsg blocks = some (t, ok) ∧ Books t [] ∧ t.fd = s.fd := by
  induction blocks generalizing s with
  | nil => exact ⟨s, true, rfl, h, rfl⟩
  | cons block blocks ih =>
    cases block with
    | other => exact ih h hkeeps
    | rights fds =>
      rw [flatMap_cons] at h
      obtain ⟨t, ok, ht, hbooks, htfd, hfits⟩ := Books.recvBlock h
      rw [Keeps, hfits] at hkeeps
      rw [uvStreamRecvCmsg, ht]
      cases ok with
      | false =>
        rw [show blocks.flatMap ControlBlock.descriptors = [] from hkeeps] at hbooks
        exact ⟨t, false, rfl, hbooks, htfd⟩
      | true =>
        obtain ⟨u, ok, hu, hbooks', hufd⟩ := ih hbooks hkeeps
        exact ⟨u, ok, hu, hbooks', hufd.trans htfd⟩

/-! ### Runs -/

/-- The books of a stream between events; a closed one has nothing that waits. -/
structure Settled (s : Acceptor κ) : Prop where
  books : Books s []
  closed : s.fd = none → s.acceptedFd = none

/-- An event is possible, unless it is one of an open handle and the handle is closed; no
assertion fails, and no write is out of bounds. -/
theorem Settled.step (h : Settled s) {e : Event κ} (hcareful : Careful s e) :
    (∃ t, s.step e = some t ∧ Settled t) ∨
      s.step e = none ∧ s.fd = none ∧ ∀ client c calls, e ≠ .accept client c calls := by
  cases e with
  | recv blocks =>
    by_cases hfd : s.fd = none
    · exact .inr ⟨if_pos hfd, hfd, by simp⟩
    · left
      obtain ⟨hnumber, hkeeps⟩ := hcareful
      have hbooks := h.books.take hnumber
      obtain ⟨t, ok, ht, hbooks', htfd⟩ := Books.recvCmsg hbooks hkeeps
      refine ⟨t, ?_, hbooks', fun hnone => absurd (htfd.symm.trans hnone) hfd⟩
      rw [Acceptor.step, if_neg hfd, ht]
      rfl
  | accept client c calls =>
    left
    obtain ⟨t, ht, hbooks, htfd, -⟩ := h.books.uvAccept client c calls
    refine ⟨t.1, by rw [Acceptor.step, ht]; rfl, hbooks, ?_⟩
    intro hnone
    have haccepted := h.closed (htfd.symm.trans hnone)
    rw [Acceptor.uvAccept, haccepted] at ht
    cases ht
    exact haccepted
  | close =>
    by_cases hfd : s.fd = none
    · exact .inr ⟨if_pos hfd, hfd, by simp⟩
    · left
      obtain ⟨t, ht, hbooks, -, haccepted, -⟩ := h.books.uvStreamClose
      exact ⟨t, by rw [Acceptor.step, if_neg hfd, ht], hbooks, fun _ => haccepted⟩

theorem Settled.of_reachable (h : Reachable Init (Guarded Careful Step) s) : Settled s := by
  apply h.invariant
  · rintro s ⟨hfd, haccepted, hqueue, htaken, hhanded, hclosed⟩
    refine ⟨⟨?_, ?_, by simp [htaken], by simp [hqueue]⟩, fun habs => absurd habs hfd⟩
    · simp [pending, given, haccepted, hqueue, htaken, hhanded, hclosed]
    · simp [pending, given, haccepted, hqueue, htaken, hhanded]
  · rintro s e t _ hs ⟨hcareful, hstep⟩
    obtain ⟨u, hu, hsettled⟩ | ⟨hnone, -⟩ := hs.step hcareful
    · rwa [Option.some.inj (hstep.symm.trans hu)]
    · cases hnone.symm.trans hstep

theorem uvPipePendingCount_eq (h : Books s rest) :
    s.uvPipePendingCount true = s.pending.length := by
  rw [uvPipePendingCount, if_neg (by decide)]
  split_ifs with hnone
  · rw [(h.pending_eq_nil hnone).2]
    rfl
  · rw [pending_of_ne_none hnone, queued]
    cases s.queuedFds <;> rfl

/-- In a run whose messages keep their descriptors, every descriptor that was received is
given to one client, in the order of receipt, or closed once, or still waits, and
`uv_pipe_pending_count` is the number of those that wait; the code goes on with every event. -/
theorem fds_accounted (h : Reachable Init (Guarded Careful Step) s) :
    s.taken.Perm (s.given ++ s.closed ++ s.pending) ∧
    (s.given ++ s.pending).Sublist s.taken ∧
    s.uvPipePendingCount true = s.pending.length ∧
    s.taken.length = s.given.length + s.closed.length + s.uvPipePendingCount true ∧
    (s.fd = none → s.pending = []) ∧
    ∀ e, Careful s e → (s.fd ≠ none ∨ ∃ client c calls, e = .accept client c calls) →
      ∃ t, Step s e t := by
  have hs := Settled.of_reachable h
  have hperm := hs.books.perm
  have horder := hs.books.order
  have hcount := uvPipePendingCount_eq hs.books
  rw [List.append_nil] at hperm horder
  refine ⟨hperm, horder, hcount, ?_, fun hfd => (hs.books.pending_eq_nil (hs.closed hfd)).2, ?_⟩
  · rw [hcount, hperm.length_eq, List.length_append, List.length_append]
  · intro e hcareful hopen
    obtain ⟨t, ht, -⟩ | ⟨-, hfd, hne⟩ := hs.step hcareful
    · exact ⟨t, ht⟩
    · obtain hfd' | ⟨client, c, calls, rfl⟩ := hopen
      · exact absurd hfd hfd'
      · exact absurd rfl (hne client c calls)

/-! ### Concrete runs -/

instance decidableKeeps : ∀ pending size blocks, Decidable (Keeps pending size blocks)
  | _, _, [] => .isTrue trivial
  | pending, size, .other :: blocks => decidableKeeps pending size blocks
  | pending, size, .rights fds :: blocks =>
    match hfits : fits pending size fds with
    | some (pending', size') =>
      have := decidableKeeps pending' size' blocks
      decidable_of_iff (Keeps pending' size' blocks) (by rw [Keeps, hfits])
    | none =>
      decidable_of_iff (blocks.flatMap ControlBlock.descriptors = []) (by rw [Keeps, hfits])

instance : ∀ (s : Acceptor κ) (e : Event κ), Decidable (Careful s e)
  | s, .recv blocks => inferInstanceAs (Decidable ((∀ fd ∈ blocks.flatMap ControlBlock.descriptors,
      2 < fd.number) ∧ Keeps s.pending.length s.queueSize blocks))
  | _, .accept _ _ _ => .isTrue trivial
  | _, .close => .isTrue trivial

def freshPipe : Acceptor ℕ := ⟨some ⟨9, 0⟩, none, none, true, [], [], []⟩

theorem init_freshPipe : Init freshPipe := ⟨by decide, rfl, rfl, rfl, rfl, rfl⟩

/-- A pipe that is the client of `uv_accept`. -/
def pipeClient (fd : Option Fd) : Client := ⟨.namedPipe, fd, false, false⟩

/-- Of three descriptors one is given to a client, one is refused by a client that is open and
one is left when the pipe is closed. -/
theorem fds_accounted_three : ∃ s : Acceptor ℕ, s.given = [⟨10, 0⟩] ∧
    s.closed = [⟨11, 0⟩, ⟨12, 0⟩] ∧ s.taken.Perm (s.given ++ s.closed ++ s.pending) := by
  have hsome : ([Event.recv [.rights [(⟨10, 0⟩, true), (⟨11, 0⟩, true)], .rights [(⟨12, 0⟩, true)]],
      .accept 0 (pipeClient none) ⟨0, 0, 0, 0⟩, .accept 0 (pipeClient (some ⟨10, 0⟩)) ⟨0, 0, 0, 0⟩,
      .close].foldlM (fun s e => if Careful s e then step s e else none) freshPipe).isSome = true := by
    rfl
  have haccounted :=
    fds_accounted (.of_foldlM_if (.init init_freshPipe) (Option.some_get hsome).symm)
  exact ⟨_, by rfl, by rfl, haccounted.1⟩

/-- When the second descriptor of a message cannot be queued, the third, in another block, is
neither closed nor kept. -/
theorem fds_lost : ∃ s : Acceptor ℕ, Reachable Init Step s ∧
    s.taken = [⟨10, 0⟩, ⟨11, 0⟩, ⟨12, 0⟩] ∧ s.given = [] ∧ s.closed = [⟨11, 0⟩, ⟨10, 0⟩] ∧
      s.pending = [] := by
  have hsome : ([Event.recv [.rights [(⟨10, 0⟩, true), (⟨11, 0⟩, false)],
      .rights [(⟨12, 0⟩, true)]], .close].foldlM step freshPipe).isSome = true := by rfl
  exact ⟨_, .of_foldlM (.init init_freshPipe) (Option.some_get hsome).symm, by rfl, by rfl, by rfl,
    by rfl⟩

end LibuvWorks.Unix.Acceptor
