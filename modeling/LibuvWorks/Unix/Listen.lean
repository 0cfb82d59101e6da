import LibuvWorks.Lib.Transition
import LibuvWorks.Unix.Accept

/-!
# Listening sockets: `uv__server_io` of `unix/stream.c`

`uv__server_io` takes one connection after the other, and the connection callback accepts it. If
the callback leaves it, the watcher stops until `uv_accept` starts it again. But `uv_accept` does
so only if it succeeds: if the client cannot be opened, nothing waits for connections any more.
-/
namespace LibuvWorks.Unix

open Transition Acceptor

/-! ### The code -/

/-- The error numbers that `uv__accept` and its callers tell apart. -/
inductive AcceptErrno where
  | eintr : AcceptErrno
  | eagain : AcceptErrno
  | ewouldblock : AcceptErrno
  | econnaborted : AcceptErrno
  | emfile : AcceptErrno
  | enfile : AcceptErrno
  | enosys : AcceptErrno
  | other (code : ℕ) : AcceptErrno
  deriving DecidableEq

/-- The answers that one turn of the loop of `uv__accept` gets: that of `accept4`, or that of
`accept` with the errors of `uv__cloexec` and `uv__nonblock`. -/
structure AcceptCalls where
  answer : Except AcceptErrno Fd
  cloexec : Option AcceptErrno
  nonblock : Option AcceptErrno

/-- Where `uv__server_io` is: not running, in `uv__accept`, in the loop of `uv__emfile_trick` or
after it, or in the connection callback, which gets an error or none. -/
inductive ServerPhase where
  | idle : ServerPhase
  | accepting : ServerPhase
  | emfileTrick : ServerPhase
  | reopening (errno : AcceptErrno) : ServerPhase
  | connectionCb (status : Option AcceptErrno) : ServerPhase
  deriving DecidableEq

def ServerPhase.userRuns : ServerPhase → Bool
  | .idle | .connectionCb _ => true
  | _ => false

structure Server (κ : Type*) where
  stream : Acceptor κ
  phase : ServerPhase
  emfileFd : Option Fd
  noAccept4 : Bool

namespace Server

variable {κ : Type*}

def take (s : Server κ) (fd : Fd) : Server κ :=
  { s with stream.taken := s.stream.taken ++ [fd] }

def uvClose (s : Server κ) (fd : Fd) : Option (Server κ) :=
  (s.stream.uvClose fd).map fun stream => { s with stream }

/-- One turn of the loop of `uv__accept`, with its result unless the loop goes on. -/
def uvAcceptTurn (s : Server κ) (calls : AcceptCalls) :
    Option (Server κ × Option (Except AcceptErrno Fd)) :=
  match calls.answer with
  | .error errno =>
    if errno = .eintr then some (s, none)
    else if errno = .enosys ∧ !s.noAccept4 then some ({ s with noAccept4 := true }, none)
    else some (s, some (.error errno))
  | .ok fd =>
    if !s.noAccept4 then some (s.take fd, some (.ok fd))
    else
      match calls.cloexec.or calls.nonblock with
      | none => some (s.take fd, some (.ok fd))
      | some errno => ((s.take fd).uvClose fd).map fun s => (s, some (.error errno))

/-- The head of the loop of `uv__server_io`; none if the assertion there fails. -/
def loopHead (s : Server κ) : Option (Server κ) :=
  if s.stream.fd = none then some { s with phase := .idle }
  else if s.stream.acceptedFd = none then some { s with phase := .accepting }
  else none

/-- `uv__server_io`, up to the loop. -/
def uvServerIo (s : Server κ) : Option (Server κ) :=
  if s.stream.acceptedFd = none ∧ s.stream.fd ≠ none then
    loopHead { s with stream.armed := true }
  else none

/-- `uv__emfile_trick`, up to the loop. -/
def uvEmfileTrick (s : Server κ) : Option (Server κ) :=
  match s.emfileFd with
  | none => some { s with phase := .connectionCb (some .emfile) }
  | some fd =>
    if 2 < fd.number then some { s with emfileFd := none, phase := .emfileTrick } else none

/-- `uv__server_io` has the result of `uv__accept`. -/
def accepted (s : Server κ) : Except AcceptErrno Fd → Option (Server κ)
  | .ok fd => some { s with stream.acceptedFd := some fd, phase := .connectionCb none }
  | .error .eagain | .error .ewouldblock => some { s with phase := .idle }
  | .error .econnaborted => s.loopHead
  | .error .emfile | .error .enfile => s.uvEmfileTrick
  | .error errno => some { s with phase := .connectionCb (some errno) }

/-- `uv__emfile_trick` has the result of `uv__accept`. -/
def emfileAccepted (s : Server κ) : Except AcceptErrno Fd → Option (Server κ)
  | .ok fd => s.uvClose fd
  | .error .eintr => some s
  | .error errno => some { s with phase := .reopening errno }

/-- The rest of `uv__emfile_trick`, and what `uv__server_io` does with its result. -/
def emfileReopened (s : Server κ) (errno : AcceptErrno) (fd : Option Fd) : Server κ :=
  { s with
    emfileFd := fd.or s.emfileFd
    phase := if errno = .eagain ∨ errno = .ewouldblock then .idle else .connectionCb (some errno) }

/-- The connection callback has returned. -/
def returned (s : Server κ) (status : Option AcceptErrno) : Option (Server κ) :=
  if status = none ∧ s.stream.acceptedFd ≠ none then
    some { s with stream.armed := false, phase := .idle }
  else s.loopHead

/-- What happens to a listening stream: it is polled, the kernel answers in `uv__accept` or when
the spare descriptor is opened again, the user accepts or closes, the callback returns, or other
streams have used what is shared. -/
inductive Event (κ : Type*) where
  | pollin : Event κ
  | accepted (calls : AcceptCalls) : Event κ
  | reopened (fd : Option Fd) : Event κ
  | accept (client : κ) (c : Client) (calls : OpenCalls) : Event κ
  | close : Event κ
  | returned : Event κ
  | elsewhere (emfileFd : Option Fd) (noAccept4 : Bool) : Event κ

/-- The events that can happen. -/
def Enabled (s : Server κ) : Event κ → Prop
  | .pollin => s.phase = .idle ∧ s.stream.armed = true
  | .accepted _ => s.phase = .accepting ∨ s.phase = .emfileTrick
  | .reopened _ => ∃ errno, s.phase = .reopening errno
  | .accept _ _ _ => s.phase.userRuns = true
  | .close => s.phase.userRuns = true ∧ s.stream.fd ≠ none
  | .returned => ∃ status, s.phase = .connectionCb status
  | .elsewhere _ _ => s.phase = .idle

def step (s : Server κ) : Event κ → Option (Server κ)
  | .pollin => if s.phase = .idle ∧ s.stream.armed = true then s.uvServerIo else none
  | .accepted calls =>
    match s.phase with
    | .accepting => (s.uvAcceptTurn calls).bind fun r => r.2.elim (some r.1) r.1.accepted
    | .emfileTrick => (s.uvAcceptTurn calls).bind fun r => r.2.elim (some r.1) r.1.emfileAccepted
    | _ => none
  | .reopened fd =>
    match s.phase with
    | .reopening errno => some (s.emfileReopened errno fd)
    | _ => none
  | .accept client c calls =>
    if s.phase.userRuns = true then
      (s.stream.uvAccept client c calls).map fun r => { s with stream := r.1 }
    else none
  | .close =>
    if s.phase.userRuns = true ∧ s.stream.fd ≠ none then
      s.stream.uvStreamClose.map fun stream => { s with stream }
    else none
  | .returned =>
    match s.phase with
    | .connectionCb status => s.returned status
    | _ => none
  | .elsewhere emfileFd noAccept4 =>
    if s.phase = .idle then some { s with emfileFd, noAccept4 } else none

def Step (s : Server κ) (e : Event κ) (t : Server κ) : Prop := s.step e = some t

structure Init (s : Server κ) : Prop where
  phase : s.phase = .idle
  fd : s.stream.fd ≠ none
  armed : s.stream.armed = true
  acceptedFd : s.stream.acceptedFd = none
  queuedFds : s.stream.queuedFds = none
  taken : s.stream.taken = []
  handed : s.stream.handed = []
  closed : s.stream.closed = []

/-- `uv_accept` can open the client, or the watcher has not been stopped yet. No descriptor that
the kernel gives, and no spare one, is a standard descriptor. -/
def Careful (s : Server κ) : Event κ → Prop
  | .accepted calls =>
    ∀ fd ∈ calls.answer.toOption.toList ++ s.emfileFd.toList, 2 < fd.number
  | .accept _ c calls =>
    s.stream.armed = true ∨
      ∀ fd ∈ s.stream.acceptedFd.toList, ∀ r ∈ (openClient c fd calls).toList, r.2 = 0
  | _ => True

/-! ### The books -/

variable {s t : Server κ} {a : Acceptor κ} {fd : Fd} {rest : List Fd} {calls : AcceptCalls}

/-- A stream that holds no descriptor and waits for connections, unless it is closed; those of
`rest` are still to be dealt with. -/
structure Waiting (a : Acceptor κ) (rest : List Fd) : Prop where
  books : Books a rest
  acceptedFd : a.acceptedFd = none
  armed : a.armed = true ↔ a.fd ≠ none

/-- What a phase says about the stream. -/
def Fits (a : Acceptor κ) : ServerPhase → Prop
  | .idle =>
    (a.armed = true ↔ a.fd ≠ none ∧ a.acceptedFd = none) ∧ (a.fd = none → a.acceptedFd = none)
  | .connectionCb status =>
    (a.armed = true ↔ a.fd ≠ none) ∧ (a.fd = none ∨ status ≠ none → a.acceptedFd = none)
  | _ => a.armed = true ∧ a.fd ≠ none ∧ a.acceptedFd = none

structure Settled (s : Server κ) : Prop where
  books : Books s.stream []
  queuedFds : s.stream.queuedFds = none
  fits : Fits s.stream s.phase

theorem Waiting.fits (h : Waiting a rest) {phase : ServerPhase} (hrun : phase.userRuns = true) :
    Fits a phase := by
  obtain ⟨-, hnone, harmed⟩ := h
  cases phase with
  | idle => exact ⟨by simp [harmed, hnone], fun _ => hnone⟩
  | connectionCb status => exact ⟨harmed, fun _ => hnone⟩
  | accepting | emfileTrick | reopening errno => cases hrun

theorem Waiting.fits_of_open (h : Waiting a rest) (hfd : a.fd ≠ none) (phase : ServerPhase) :
    Fits a phase := by
  have harmed : a.armed = true := h.armed.mpr hfd
  cases phase with
  | idle | connectionCb status => exact h.fits rfl
  | _ => exact ⟨harmed, hfd, h.acceptedFd⟩

theorem Fits.congr {b : Acceptor κ} {phase : ServerPhase} (h : Fits a phase) (hfd : b.fd = a.fd)
    (haccepted : b.acceptedFd = a.acceptedFd) (harmed : b.armed = a.armed) : Fits b phase := by
  unfold Fits
  rwa [hfd, haccepted, harmed]

theorem Waiting.settled (h : Waiting s.stream []) (hfits : Fits s.stream s.phase) :
    Settled s :=
  ⟨h.books, (h.books.pending_eq_nil h.acceptedFd).1, hfits⟩

theorem Waiting.loopHead (h : Waiting s.stream []) : ∃ t, s.loopHead = some t ∧ Settled t := by
  rw [Server.loopHead]
  by_cases hfd : s.stream.fd = none
  · rw [if_pos hfd]
    exact ⟨_, rfl, Waiting.settled h (h.fits rfl)⟩
  · rw [if_neg hfd, if_pos h.acceptedFd]
    exact ⟨_, rfl, Waiting.settled h (h.fits_of_open hfd _)⟩

/-- The descriptor that a turn of `uv__accept` leaves to its caller. -/
def left : Option (Except AcceptErrno Fd) → List Fd
  | some (.ok fd) => [fd]
  | _ => []

theorem Waiting.uvClose (h : Waiting s.stream [fd]) :
    ∃ t, s.uvClose fd = some t ∧ Waiting t.stream [] ∧ t.stream.fd = s.stream.fd ∧
      t.emfileFd = s.emfileFd := by
  have hrest : Books s.stream ([fd] ++ []) := h.books
  have hclose : s.uvClose fd = some { s with stream.closed := s.stream.closed ++ [fd] } := by
    rw [Server.uvClose, Acceptor.uvClose, if_pos h.books.number_of_mem]
    rfl
  exact ⟨_, hclose, { h with books := hrest.closeAll.2 }, rfl, rfl⟩

theorem Waiting.take (h : Waiting s.stream []) (hnumber : 2 < fd.number) :
    Waiting (s.take fd).stream [fd] :=
  { h with books := h.books.take (by simpa using hnumber) }

theorem Waiting.uvAcceptTurn (h : Waiting s.stream [])
    (hnumber : ∀ fd ∈ calls.answer.toOption.toList, 2 < fd.number) :
    ∃ t result, s.uvAcceptTurn calls = some (t, result) ∧ Waiting t.stream (left result) ∧
      t.stream.fd = s.stream.fd ∧ t.emfileFd = s.emfileFd := by
  rw [Server.uvAcceptTurn]
  cases hanswer : calls.answer with
  | error errno =>
    dsimp only
    split_ifs
    · exact ⟨_, _, rfl, h, rfl, rfl⟩
    · exact ⟨_, _, rfl, h, rfl, rfl⟩
    · exact ⟨_, _, rfl, h, rfl, rfl⟩
  | ok fd =>
    rw [hanswer] at hnumber
    have htake := h.take (hnumber fd (by simp [Except.toOption]))
    dsimp only
    by_cases hfallback : s.noAccept4 = true
    · rw [if_neg (by simp [hfallback])]
      cases calls.cloexec.or calls.nonblock with
      | none => exact ⟨_, _, rfl, htake, rfl, rfl⟩
      | some errno =>
        obtain ⟨t, ht, hwaiting, hfd, hemfile⟩ := htake.uvClose
        exact ⟨t, some (.error errno), by rw [ht]; rfl, hwaiting, hfd, hemfile⟩
    · rw [if_pos (by simp [hfallback])]
      exact ⟨_, _, rfl, htake, rfl, rfl⟩

variable {result : Except AcceptErrno Fd}

/-- `uv__server_io` hands a descriptor to the callback, waits again, or reports an error. -/
theorem Waiting.accepted
    (h : Waiting s.stream (left (some result))) (hfd : s.stream.fd ≠ none)
    (hspare : ∀ fd ∈ s.emfileFd.toList, 2 < fd.number) :
    ∃ t, s.accepted result = some t ∧ Settled t := by
  cases result with
  | ok fd =>
    have hqueue := (h.books.pending_eq_nil h.acceptedFd).1
    have hreceive := Books.receive h.books h.acceptedFd
    have hfits : Fits { s.stream with acceptedFd := some fd } (.connectionCb none) := by
      refine ⟨h.armed, ?_⟩
      rintro (hnone | hstatus)
      · exact absurd hnone hfd
      · exact absurd rfl hstatus
    exact ⟨_, rfl, hreceive.1, hqueue, hfits⟩
  | error errno =>
    have hreport : ∀ status, Settled { s with phase := .connectionCb status } :=
      fun status => Waiting.settled h (h.fits rfl)
    have hwait : Settled { s with phase := .idle } := Waiting.settled h (h.fits rfl)
    have htrick : ∃ t, s.uvEmfileTrick = some t ∧ Settled t := by
      rw [uvEmfileTrick]
      cases hemfile : s.emfileFd with
      | none => exact ⟨_, rfl, Waiting.settled h (h.fits rfl)⟩
      | some fd =>
        rw [hemfile] at hspare
        dsimp only
        rw [if_pos (hspare fd (by simp))]
        exact ⟨_, rfl, Waiting.settled h (h.fits_of_open hfd _)⟩
    cases errno with
    | eagain | ewouldblock => exact ⟨_, rfl, hwait⟩
    | econnaborted => exact Waiting.loopHead h
    | emfile | enfile => exact htrick
    | eintr | enosys | other code => exact ⟨_, rfl, hreport _⟩

theorem Waiting.emfileAccepted
    (h : Waiting s.stream (left (some result))) (hfd : s.stream.fd ≠ none) :
    ∃ t, s.emfileAccepted result = some t ∧ Settled t := by
  cases result with
  | ok fd =>
    obtain ⟨t, ht, hwaiting, htfd, -⟩ := Waiting.uvClose h
    exact ⟨t, ht, hwaiting.settled (hwaiting.fits_of_open (htfd ▸ hfd) _)⟩
  | error errno =>
    have hwaiting : Waiting s.stream [] := h
    have hreopen : Settled { s with phase := .reopening errno } :=
      Waiting.settled hwaiting (hwaiting.fits_of_open hfd _)
    cases errno with
    | eintr => exact ⟨s, rfl, hwaiting.settled (hwaiting.fits_of_open hfd _)⟩
    | _ => exact ⟨_, rfl, hreopen⟩

/-! ### Steps -/

section

variable (h : Settled s)
include h

theorem Settled.waiting (hrun : s.phase.userRuns = false) :
    Waiting s.stream [] ∧ s.stream.fd ≠ none := by
  obtain ⟨hbooks, -, hfits⟩ := h
  generalize s.phase = phase at hrun hfits
  have hwaiting : s.stream.armed = true ∧ s.stream.fd ≠ none ∧ s.stream.acceptedFd = none := by
    cases phase with
    | idle | connectionCb status => cases hrun
    | _ => exact hfits
  obtain ⟨harmed, hfd, hnone⟩ := hwaiting
  exact ⟨⟨hbooks, hnone, by simp [harmed, hfd]⟩, hfd⟩

theorem Settled.acceptedFd_of_closed (hfd : s.stream.fd = none) :
    s.stream.acceptedFd = none := by
  have hfits := h.fits
  generalize s.phase = phase at hfits
  cases phase with
  | idle => exact hfits.2 hfd
  | connectionCb status => exact hfits.2 (.inl hfd)
  | _ => exact absurd hfd hfits.2.1

theorem Settled.pollin (hphase : s.phase = .idle) (harmed : s.stream.armed = true) :
    ∃ t, s.uvServerIo = some t ∧ Settled t := by
  have hfits := h.fits
  rw [hphase] at hfits
  obtain ⟨hfd, hnone⟩ := hfits.1.mp harmed
  rw [uvServerIo, if_pos ⟨hnone, hfd⟩]
  exact Waiting.loopHead ⟨h.books.setArmed true, hnone, by simp [hfd]⟩

theorem Settled.returned {status : Option AcceptErrno}
    (hphase : s.phase = .connectionCb status) : ∃ t, s.returned status = some t ∧ Settled t := by
  obtain ⟨hbooks, hqueue, hfits⟩ := h
  rw [hphase] at hfits
  obtain ⟨harmed, hnone⟩ := hfits
  rw [Server.returned]
  by_cases hleft : status = none ∧ s.stream.acceptedFd ≠ none
  · have hfits : Fits { s.stream with armed := false } .idle := by
      constructor
      · simp [hleft.2]
      · exact fun hfd => hnone (.inl hfd)
    rw [if_pos hleft]
    exact ⟨_, rfl, hbooks.setArmed false, hqueue, hfits⟩
  · have hempty : s.stream.acceptedFd = none := by
      by_cases hstatus : status = none
      · by_contra hne
        exact hleft ⟨hstatus, hne⟩
      · exact hnone (.inr hstatus)
    rw [if_neg hleft]
    exact Waiting.loopHead ⟨hbooks, hempty, harmed⟩

/-- `uv_accept` leaves a stream that waits, unless it has refused the client. -/
theorem Settled.uvAccept (hrun : s.phase.userRuns = true) (client : κ) (c : Client)
    (calls : OpenCalls) (hcareful : Careful s (.accept client c calls)) :
    ∃ r, s.stream.uvAccept client c calls = some r ∧ Settled { s with stream := r.1 } := by
  obtain ⟨r, hr, hbooks, hfd, hrest⟩ := h.books.uvAccept client c calls
  obtain ⟨hqueue, hcases⟩ := hrest h.queuedFds
  refine ⟨r, hr, hbooks, hqueue, ?_⟩
  obtain ⟨hsame, harmed⟩ | ⟨hnone, fd, c', err, hsome, hopen, harmed⟩ := hcases
  · exact h.fits.congr hfd hsame harmed
  · have hopened : r.1.armed = true := by
      rw [harmed]
      obtain hcareful | hcareful := hcareful
      · rw [hcareful, Bool.true_or]
      · have herr : err = 0 := hcareful fd (by simp [hsome]) (c', err) (by simp [hopen])
        simp [herr]
    have hopen' : r.1.fd ≠ none := by
      rw [hfd]
      intro habs
      exact absurd (h.acceptedFd_of_closed habs) (by simp [hsome])
    have hwaiting : Waiting r.1 [] := ⟨hbooks, hnone, by simp [hopened, hopen']⟩
    exact hwaiting.fits hrun

theorem Settled.uvStreamClose (hrun : s.phase.userRuns = true) :
    ∃ a, s.stream.uvStreamClose = some a ∧ Settled { s with stream := a } := by
  obtain ⟨a, ha, hbooks, hfd, hnone, hqueue, harmed⟩ := h.books.uvStreamClose
  have hwaiting : Waiting a [] := ⟨hbooks, hnone, by simp [harmed, hfd]⟩
  exact ⟨a, ha, hbooks, hqueue, hwaiting.fits hrun⟩

theorem Settled.accepted (hcareful : Careful s (.accepted calls))
    {caller : Server κ → Except AcceptErrno Fd → Option (Server κ)}
    (hrun : s.phase.userRuns = false)
    (hcaller : ∀ t result, Waiting t.stream (left (some result)) → t.stream.fd ≠ none →
      t.emfileFd = s.emfileFd → ∃ u, caller t result = some u ∧ Settled u) :
    ∃ u, ((s.uvAcceptTurn calls).bind fun r => r.2.elim (some r.1) (caller r.1)) = some u ∧
      Settled u := by
  obtain ⟨hwaiting, hfd⟩ := h.waiting hrun
  obtain ⟨t, result, ht, hleft, htfd, hemfile⟩ := hwaiting.uvAcceptTurn
    fun fd hmem => hcareful fd (List.mem_append_left _ hmem)
  rw [ht]
  cases result with
  | none =>
    refine ⟨t, rfl, hleft.settled ?_⟩
    exact Waiting.fits_of_open hleft (htfd ▸ hfd) _
  | some result => exact hcaller t result hleft (htfd ▸ hfd) hemfile

/-- An event that can happen leaves a settled stream, and no assertion fails. -/
theorem Settled.step {e : Event κ} (henabled : Enabled s e)
    (hcareful : Careful s e) : ∃ t, s.step e = some t ∧ Settled t := by
  cases e with
  | pollin =>
    obtain ⟨hphase, harmed⟩ := henabled
    rw [Server.step, if_pos ⟨hphase, harmed⟩]
    exact h.pollin hphase harmed
  | accepted calls =>
    obtain hphase | hphase := henabled
    · rw [Server.step, hphase]
      apply h.accepted hcareful (by rw [hphase]; rfl)
      intro t result hwaiting hfd hemfile
      apply Waiting.accepted hwaiting hfd
      rw [hemfile]
      exact fun fd hmem => hcareful fd (List.mem_append_right _ hmem)
    · rw [Server.step, hphase]
      apply h.accepted hcareful (by rw [hphase]; rfl)
      intro t result hwaiting hfd _
      exact Waiting.emfileAccepted hwaiting hfd
  | reopened fd =>
    obtain ⟨errno, hphase⟩ := henabled
    have hwaiting := (h.waiting (by rw [hphase]; rfl)).1
    have hrun : (s.emfileReopened errno fd).phase.userRuns = true := by
      rw [emfileReopened]
      split_ifs <;> rfl
    rw [Server.step, hphase]
    exact ⟨_, rfl, Waiting.settled hwaiting (hwaiting.fits hrun)⟩
  | accept client c calls =>
    have hrun : s.phase.userRuns = true := henabled
    obtain ⟨r, hr, hsettled⟩ := h.uvAccept hrun client c calls hcareful
    rw [Server.step, if_pos hrun, hr]
    exact ⟨_, rfl, hsettled⟩
  | close =>
    have hopen : s.phase.userRuns = true ∧ s.stream.fd ≠ none := henabled
    obtain ⟨a, ha, hsettled⟩ := h.uvStreamClose hopen.1
    rw [Server.step, if_pos hopen, ha]
    exact ⟨_, rfl, hsettled⟩
  | returned =>
    obtain ⟨status, hphase⟩ := henabled
    rw [Server.step, hphase]
    exact h.returned hphase
  | elsewhere emfileFd noAccept4 =>
    have hphase : s.phase = .idle := henabled
    rw [Server.step, if_pos hphase]
    exact ⟨_, rfl, h.books, h.queuedFds, h.fits⟩

end

theorem enabled_of_step {e : Event κ} (hstep : s.step e = some t) : Enabled s e := by
  unfold step at hstep
  cases e with
  | pollin | accept client c calls | close | elsewhere emfileFd noAccept4 =>
    exact (Option.ite_none_right_eq_some.mp hstep).1
  | accepted calls =>
    cases hphase : s.phase with
    | accepting => exact .inl hphase
    | emfileTrick => exact .inr hphase
    | _ =>
      rw [hphase] at hstep
      cases hstep
  | reopened fd =>
    cases hphase : s.phase with
    | reopening errno => exact ⟨errno, hphase⟩
    | _ =>
      rw [hphase] at hstep
      cases hstep
  | returned =>
    cases hphase : s.phase with
    | connectionCb status => exact ⟨status, hphase⟩
    | _ =>
      rw [hphase] at hstep
      cases hstep

/-! ### Runs -/

theorem Settled.of_reachable (h : Reachable Init (Guarded Careful Step) s) : Settled s := by
  apply h.invariant
  · rintro s ⟨hphase, hfd, harmed, hnone, hqueue, htaken, hhanded, hclosed⟩
    refine ⟨⟨?_, ?_, by simp [htaken], by simp [hqueue]⟩, hqueue, ?_⟩
    · simp [pending, given, hnone, hqueue, htaken, hhanded, hclosed]
    · simp [pending, given, hnone, hqueue, htaken, hhanded]
    · rw [hphase]
      exact ⟨by simp [harmed, hfd, hnone], fun _ => hnone⟩
  · rintro s e t _ hs ⟨hcareful, hstep⟩
    obtain ⟨u, hu, hsettled⟩ := hs.step (enabled_of_step hstep) hcareful
    rwa [Option.some.inj (hstep.symm.trans hu)]

/-- In a run in which `uv_accept` opens every client for which it is called after the callback, an
open stream that holds no descriptor waits for connections; every descriptor of `accept` is given
to one client, closed, or waits for `uv_accept`; and no assertion fails. -/
theorem server_listens (h : Reachable Init (Guarded Careful Step) s) :
    (s.phase = .idle → s.stream.fd ≠ none → s.stream.acceptedFd = none → s.stream.armed = true) ∧
    s.stream.taken.Perm (s.stream.given ++ s.stream.closed ++ s.stream.acceptedFd.toList) ∧
    (s.stream.fd = none → s.stream.acceptedFd = none) ∧
    ∀ e, Enabled s e → Careful s e → ∃ t, Step s e t := by
  have hs := Settled.of_reachable h
  refine ⟨?_, ?_, ?_, ?_⟩
  · intro hphase hfd hnone
    have hfits := hs.fits
    rw [hphase] at hfits
    exact hfits.1.mpr ⟨hfd, hnone⟩
  · have hperm := hs.books.perm
    rw [List.append_nil, pending, hs.queuedFds] at hperm
    simpa using hperm
  · exact hs.acceptedFd_of_closed
  · intro e henabled hcareful
    obtain ⟨t, ht, -⟩ := hs.step henabled hcareful
    exact ⟨t, ht⟩

/-! ### Concrete runs -/

instance : ∀ (s : Server κ) (e : Event κ), Decidable (Careful s e)
  | s, .accepted calls => inferInstanceAs (Decidable
      (∀ fd ∈ calls.answer.toOption.toList ++ s.emfileFd.toList, 2 < fd.number))
  | s, .accept _ c calls => inferInstanceAs (Decidable (s.stream.armed = true ∨
      ∀ fd ∈ s.stream.acceptedFd.toList, ∀ r ∈ (openClient c fd calls).toList, r.2 = 0))
  | _, .pollin => .isTrue trivial
  | _, .reopened _ => .isTrue trivial
  | _, .close => .isTrue trivial
  | _, .returned => .isTrue trivial
  | _, .elsewhere _ _ => .isTrue trivial

def freshServer : Server ℕ :=
  ⟨⟨some ⟨7, 0⟩, none, none, true, [], [], []⟩, .idle, some ⟨8, 0⟩, false⟩

theorem init_freshServer : Init freshServer :=
  ⟨rfl, by decide, rfl, rfl, rfl, rfl, rfl, rfl⟩

/-- `accept4` gives a connection, or fails. -/
def connects (fd : Fd) : Event ℕ := .accepted ⟨.ok fd, none, none⟩

def fails (errno : AcceptErrno) : Event ℕ := .accepted ⟨.error errno, none, none⟩

/-- `uv_accept` with a client that has a descriptor, or has none. -/
def accepts (client : ℕ) (fd : Option Fd) : Event ℕ :=
  .accept client ⟨.tcp, fd, false, false⟩ ⟨0, 0, 0, 0⟩

/-- One connection is refused by a busy client in the callback, one is closed when there are too
many descriptors, and one is accepted after the callback; the stream still waits for more. -/
theorem server_listens_three : ∃ s : Server ℕ, s.stream.taken = [⟨10, 0⟩, ⟨11, 0⟩, ⟨12, 0⟩] ∧
    s.stream.given = [⟨12, 0⟩] ∧ s.stream.closed = [⟨10, 0⟩, ⟨11, 0⟩] ∧ s.stream.armed = true := by
  have hsome : ([.pollin, connects ⟨10, 0⟩, accepts 0 (some ⟨9, 0⟩), .returned, fails .emfile,
      connects ⟨11, 0⟩, fails .eagain, .reopened (some ⟨8, 1⟩), .pollin, connects ⟨12, 0⟩, .returned,
      accepts 1 none].foldlM (fun s e => if Careful s e then step s e else none)
      freshServer).isSome = true := by rfl
  have hlistens :=
    server_listens (.of_foldlM_if (.init init_freshServer) (Option.some_get hsome).symm)
  exact ⟨_, by rfl, by rfl, by rfl,
    hlistens.1 (by rfl) (Option.isSome_iff_ne_none.mp (by rfl)) (by rfl)⟩

/-- A connection that is left in the callback and then refused by a busy client stops the server:
nothing waits, and nothing polls for more. -/
theorem server_stops : ∃ s : Server ℕ, Reachable Init Step s ∧ s.phase = .idle ∧
    s.stream.fd = some ⟨7, 0⟩ ∧ s.stream.acceptedFd = none ∧ s.stream.armed = false := by
  have hsome : ([.pollin, connects ⟨10, 0⟩, .returned, accepts 0 (some ⟨9, 0⟩)].foldlM step
      freshServer).isSome = true := by rfl
  exact ⟨_, .of_foldlM (.init init_freshServer) (Option.some_get hsome).symm, by rfl, by rfl, by rfl,
    by rfl⟩

end Server

end LibuvWorks.Unix
