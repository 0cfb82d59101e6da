import LibuvWorks.Unix.StreamReads
import LibuvWorks.Unix.UdpIo

/-!
# Closed watchers stay out of the loop

A handle that is closed in a callback makes no system call afterwards, and its watcher is in no
queue of the loop: `uv__stream_io` looks at the descriptor after each callback, `uv__udp_io` does
not.
-/
namespace LibuvWorks.Unix

open History Transition Option

def Silent (entry : IoEntry) (older : List IoEntry) : Prop :=
  entry = .syscall → .close ∉ older

/-- What holds of the watcher and the record of a handle, closed or not. -/
structure Quiet (watcher : IoWatcher) (closing : Bool) (log : List IoEntry) : Prop where
  known : watcher.Known
  closed : closing = true → watcher.fd = -1 ∧ watcher.pending ≠ .linked
  recorded : .close ∈ log → closing = true
  silent : Justified Silent log

namespace Quiet

variable {w v : IoWatcher} {m : PollMask} {closing : Bool} {log : List IoEntry}

theorem init (hqueued : w.queued = false) (hpevents : w.pevents = .empty) : Quiet w false [] := by
  refine ⟨⟨fun habs => ?_, fun hne => absurd hpevents hne⟩, nofun, nofun, justified_nil⟩
  cases hqueued.symm.trans habs

theorem not_queued (h : Quiet w true log) : w.pending ≠ .linked ∧ w.queued = false := by
  obtain ⟨hfd, hpending⟩ := h.closed rfl
  refine ⟨hpending, ?_⟩
  by_contra hqueued
  have hopen := (h.known.queued (by simpa using hqueued)).1
  omega

theorem open_of_fd (h : Quiet w closing log) (hfd : w.fd ≠ -1) : closing = false := by
  by_contra hclosing
  exact hfd (h.closed (by simpa using hclosing)).1

theorem syscall (h : Quiet w false log) : Quiet w false (.syscall :: log) := by
  refine ⟨h.known, h.closed, fun hclose => ?_, ?_⟩
  · exact h.recorded (by simpa using hclose)
  · exact justified_cons.mpr ⟨fun _ hclose => Bool.noConfusion (h.recorded hclose), h.silent⟩

theorem entry {entry : IoEntry} (h : Quiet w closing log) (hsyscall : entry ≠ .syscall)
    (hclose : entry ≠ .close) :
    Quiet w closing (entry :: log) := by
  refine ⟨h.known, h.closed, fun hmem => ?_, ?_⟩
  · apply h.recorded
    rcases List.mem_cons.mp hmem with heq | hmem
    · exact absurd heq.symm hclose
    · exact hmem
  · exact justified_cons.mpr ⟨fun habs => absurd habs hsyscall, h.silent⟩

theorem start (h : Quiet w closing log) (hstart : w.uvIoStart m = some v) :
    Quiet v closing log := by
  obtain ⟨hfd, hsame, hpending, -⟩ := IoWatcher.uvIoStart_spec hstart
  refine ⟨.uvIoStart hstart, ?_, h.recorded, h.silent⟩
  rw [hsame, hpending]
  exact h.closed

theorem stop (h : Quiet w closing log) : Quiet (w.uvIoStop m) closing log := by
  refine ⟨h.known.uvIoStop, ?_, h.recorded, h.silent⟩
  rw [IoWatcher.fd_uvIoStop, IoWatcher.pending_uvIoStop]
  exact h.closed

theorem feed (h : Quiet w false log) : Quiet w.uvIoFeed false log :=
  ⟨{ h.known with }, nofun, h.recorded, h.silent⟩

theorem unlink (h : Quiet w closing log) : Quiet w.unlink closing log :=
  ⟨{ h.known with }, fun hclosing => ⟨(h.closed hclosing).1, nofun⟩, h.recorded,
    h.silent⟩

theorem register (h : Quiet w closing log) : Quiet w.register closing log := by
  unfold IoWatcher.register
  split_ifs
  · exact { h with known := ⟨nofun, h.known.pevents⟩ }
  · exact h

theorem setFd {fd : ℤ} (h : Quiet w false log) (hqueued : w.queued = false)
    (hpevents : w.pevents = .empty) : Quiet { w with fd } false log := by
  refine ⟨⟨fun habs => ?_, fun hne => absurd hpevents hne⟩, nofun, h.recorded, h.silent⟩
  cases hqueued.symm.trans habs

theorem not_started (h : Quiet w closing log) (hfd : w.fd = -1) :
    w.queued = false ∧ w.pevents = .empty := by
  constructor
  · by_contra hqueued
    have hopen := (h.known.queued (by simpa using hqueued)).1
    omega
  · by_contra hpevents
    have hopen := (h.known.pevents hpevents).1
    omega

theorem close (h : Quiet w closing log) (hqueued : v.queued = false) (hpevents : v.pevents = .empty)
    (hfd : v.fd = -1) (hpending : v.pending ≠ .linked) : Quiet v true (.close :: log) := by
  refine ⟨⟨fun habs => ?_, fun hne => absurd hpevents hne⟩, fun _ => ⟨hfd, hpending⟩,
    fun _ => rfl, ?_⟩
  · cases hqueued.symm.trans habs
  · exact justified_cons.mpr ⟨nofun, h.silent⟩

end Quiet

/-! ### Streams -/

namespace StreamIo

variable {s t : StreamIo} {e : Event} {events : PollEvents} {error : ℤ}

/-- `uv__drain` calls `shutdown` on an open stream. -/
structure Settled (s : StreamIo) : Prop where
  quiet : Quiet s.watcher s.closing s.log
  shutdown : s.phase = .shutdown → s.closing = false

theorem Settled.syscall (h : Settled s) (hclosing : s.closing = false) : Settled s.syscall := by
  have hquiet := h.quiet
  rw [hclosing] at hquiet
  refine ⟨?_, h.shutdown⟩
  change Quiet s.watcher s.closing _
  rw [hclosing]
  exact hquiet.syscall

theorem Settled.feed (h : Settled s) (hclosing : s.closing = false) :
    Settled { s with watcher := s.watcher.uvIoFeed } := by
  have hquiet := h.quiet
  rw [hclosing] at hquiet
  refine ⟨?_, h.shutdown⟩
  rw [hclosing]
  exact hquiet.feed

theorem Settled.start {m : PollMask} (h : Settled s) (ht : s.uvIoStart m = some t) : Settled t := by
  obtain ⟨watcher, hstart, rfl⟩ := map_eq_some_iff.mp ht
  exact ⟨h.quiet.start hstart, h.shutdown⟩

theorem Settled.uvWrite {result : WriteResult} (h : Settled s) (ht : s.uvWrite result = some t) :
    Settled t := by
  unfold StreamIo.uvWrite at ht
  split_ifs at ht with hneg hempty
  · cases ht
    exact h
  · have hcall := h.syscall (h.quiet.open_of_fd (by omega))
    have hfinished := hcall.feed (h.quiet.open_of_fd (by omega))
    cases result with
    | done =>
      cases ht
      exact ⟨hfinished.quiet, hfinished.shutdown⟩
    | failed =>
      cases ht
      exact ⟨hfinished.quiet.stop, hfinished.shutdown⟩
    | later => exact hcall.start ht

theorem Settled.uvWriteCallbacks {caller : Caller} (h : Quiet s.watcher s.closing s.log) :
    Settled (s.uvWriteCallbacks caller) := by
  unfold StreamIo.uvWriteCallbacks StreamIo.uvDrain
  dsimp only
  split_ifs with hcompleted hdrain hshutting
  · exact ⟨h, nofun⟩
  · refine ⟨h.stop, fun _ => ?_⟩
    simpa using hshutting.2.1
  · exact ⟨h.stop, nofun⟩
  · exact ⟨h, nofun⟩

theorem Settled.writes (h : Quiet s.watcher s.closing s.log) (ht : s.writes events = some t) :
    Settled t := by
  unfold StreamIo.writes at ht
  split_ifs at ht
  · cases ht
    exact .uvWriteCallbacks h
  · cases ht
    exact ⟨h, nofun⟩
  · cases ht
    exact ⟨h, nofun⟩

theorem Settled.callRead {nread : ℤ} {after : AfterRead} (h : Quiet s.watcher s.closing s.log)
    (ht : s.callRead nread after events = some t) : Settled t := by
  unfold StreamIo.callRead at ht
  split_ifs at ht
  cases ht
  exact ⟨h.entry nofun nofun, nofun⟩

theorem Settled.afterRead (h : Quiet s.watcher s.closing s.log) (ht : s.afterRead events = some t) :
    Settled t := by
  unfold StreamIo.afterRead at ht
  split_ifs at ht
  · cases ht
    exact ⟨h, nofun⟩
  · apply Settled.callRead ?_ ht
    exact h.stop
  · exact .writes h ht

theorem Settled.readLoop {count : ℕ} (h : Quiet s.watcher s.closing s.log)
    (ht : s.readLoop events count = some t) : Settled t := by
  unfold StreamIo.readLoop at ht
  split_ifs at ht
  · cases ht
    exact ⟨h, nofun⟩
  · exact .afterRead h ht

theorem Settled.uvRead {count len : ℕ} {result : ReadResult} (h : Settled s)
    (ht : s.uvRead events count len result = some t) : Settled t := by
  unfold StreamIo.uvRead at ht
  split_ifs at ht with hlen hneg
  · exact .callRead h.quiet ht
  · have hcall := h.syscall (h.quiet.open_of_fd (by omega))
    cases result with
    | fails errno =>
      dsimp only at ht
      split_ifs at ht
      · obtain ⟨u, hstart, ht⟩ := bind_eq_some_iff.mp ht
        exact .callRead (hcall.start hstart).quiet ht
      · exact .callRead hcall.quiet ht
      · exact .callRead hcall.quiet ht
    | bytes n cmsgErr =>
      dsimp only at ht
      split_ifs at ht
      · apply Settled.callRead ?_ ht
        exact hcall.quiet.stop
      · exact .callRead hcall.quiet ht
      · exact .callRead hcall.quiet ht

theorem Settled.readReturned {after : AfterRead} (h : Quiet s.watcher s.closing s.log)
    (ht : s.readReturned after events = some t) : Settled t := by
  unfold StreamIo.readReturned at ht
  cases after with
  | leave => exact .afterRead h ht
  | error =>
    split_ifs at ht
    · apply Settled.afterRead ?_ ht
      exact h.stop
    · exact .afterRead h ht
  | eof =>
    apply Settled.afterRead ?_ ht
    exact h
  | data count full =>
    dsimp only at ht
    split_ifs at ht
    · exact .readLoop h ht
    · apply Settled.afterRead ?_ ht
      exact h

theorem Settled.connectCall (h : Settled s) : Settled (s.connectCall error) := by
  unfold StreamIo.connectCall
  dsimp only
  split_ifs
  · exact h
  · exact ⟨h.quiet.stop, nofun⟩
  · exact ⟨h.quiet, nofun⟩

theorem Settled.uvStreamConnect (h : Settled s) (hclosing : s.closing = false)
    (ht : s.uvStreamConnect error = some t) : Settled t := by
  unfold StreamIo.uvStreamConnect at ht
  split_ifs at ht
  · cases ht
    apply Settled.connectCall
    exact ⟨h.quiet, h.shutdown⟩
  · cases ht
    exact (h.syscall hclosing).connectCall

theorem Settled.connectReturned (h : Quiet s.watcher s.closing s.log) :
    Settled (s.connectReturned error) := by
  unfold StreamIo.connectReturned
  split_ifs
  · exact ⟨h, nofun⟩
  · exact .uvWriteCallbacks h

theorem Settled.uvStreamIo (h : Settled s) (ht : s.uvStreamIo events error = some t) :
    Settled t := by
  unfold StreamIo.uvStreamIo at ht
  split_ifs at ht with hclosing
  · exact h.uvStreamConnect (by simpa using hclosing) ht
  · apply Settled.readLoop ?_ ht
    exact h.quiet
  · exact .afterRead h.quiet ht

theorem Settled.uvReadStart (h : Settled s) (ht : s.uvReadStart = some t) : Settled t := by
  unfold StreamIo.uvReadStart at ht
  split_ifs at ht with hclosing
  · cases ht
    exact h
  · apply Settled.start ?_ ht
    exact ⟨h.quiet.entry nofun nofun, h.shutdown⟩

theorem Settled.uvReadStop (h : Settled s) : Settled s.uvReadStop := by
  unfold StreamIo.uvReadStop
  split_ifs
  · exact ⟨h.quiet.stop, h.shutdown⟩
  · exact h

theorem Settled.uvWrite2 {emptyQueue : Bool} {result : WriteResult} (h : Settled s)
    (ht : s.uvWrite2 emptyQueue result = some t) : Settled t := by
  unfold StreamIo.uvWrite2 at ht
  dsimp only at ht
  split_ifs at ht
  · cases ht
    exact h
  · cases ht
    exact ⟨h.quiet, h.shutdown⟩
  · apply Settled.uvWrite ?_ ht
    exact ⟨h.quiet, h.shutdown⟩
  · apply Settled.start ?_ ht
    exact ⟨h.quiet, h.shutdown⟩

theorem Settled.uvShutdown (h : Settled s) (ht : s.uvShutdown = some t) : Settled t := by
  unfold StreamIo.uvShutdown at ht
  split_ifs at ht
  · cases ht
    exact h
  · apply Settled.start ?_ ht
    exact ⟨h.quiet, h.shutdown⟩

theorem closing_uvIoStart {m : PollMask} (ht : s.uvIoStart m = some t) : t.closing = s.closing := by
  obtain ⟨watcher, -, rfl⟩ := map_eq_some_iff.mp ht
  rfl

theorem Settled.uvTcpConnect {errno : ℕ} (h : Settled s) (hclosing : s.closing = false)
    (ht : s.uvTcpConnect errno = some t) : Settled t := by
  have hcall := h.syscall hclosing
  unfold StreamIo.uvTcpConnect at ht
  by_cases hset : s.connecting = true
  · rw [if_pos hset] at ht
    cases ht
    exact h
  · rw [if_neg hset] at ht
    by_cases herrno : errno = 0 ∨ errno = einprogress ∨ errno = econnrefused
    · obtain ⟨u, hstart, rfl⟩ := map_eq_some_iff.mp ((if_pos herrno).symm.trans ht)
      have hu : Settled u := by
        apply Settled.start ?_ hstart
        exact ⟨hcall.quiet, hcall.shutdown⟩
      split_ifs
      · exact hu
      · exact hu.feed ((closing_uvIoStart hstart).trans hclosing)
    · cases (if_neg herrno).symm.trans ht
      exact ⟨hcall.quiet, hcall.shutdown⟩

theorem Settled.uvPipeConnect (h : Settled s) (hclosing : s.closing = false)
    (ht : s.uvPipeConnect error = some t) : Settled t := by
  unfold StreamIo.uvPipeConnect at ht
  generalize hu : (if s.watcher.fd = -1 then s else s.syscall) = u at ht
  have hopened : Settled u ∧ u.closing = false := by
    subst hu
    split_ifs
    · exact ⟨h, hclosing⟩
    · exact ⟨h.syscall hclosing, hclosing⟩
  have hconnecting : Settled { u with connecting := true, delayedError := error } :=
    ⟨hopened.1.quiet, hopened.1.shutdown⟩
  by_cases herror : error = 0
  · exact hconnecting.start ((if_pos herror).symm.trans ht)
  · cases (if_neg herror).symm.trans ht
    exact hconnecting.feed hopened.2

theorem Settled.uvStreamOpen {fd : ℤ} (h : Settled s) (hclosing : s.closing = false) :
    Settled (s.uvStreamOpen fd) := by
  have hquiet := h.quiet
  rw [hclosing] at hquiet
  unfold StreamIo.uvStreamOpen
  split_ifs with hopen
  · rcases hopen with hnone | rfl
    · obtain ⟨hqueued, hpevents⟩ := h.quiet.not_started hnone
      refine ⟨?_, h.shutdown⟩
      rw [hclosing]
      exact hquiet.setFd hqueued hpevents
    · exact h
  · exact h

theorem Settled.uvStreamClose (h : Settled s) (hphase : s.phase ≠ .shutdown) :
    Settled s.uvStreamClose := by
  obtain ⟨hclosing, hlog, hsame, hfd, hpending, hqueued, hpevents⟩ :=
    uvStreamClose_spec h.quiet.known
  constructor
  · rw [hclosing, hlog]
    exact h.quiet.close hqueued hpevents hfd hpending
  · intro habs
    exact absurd (hsame.symm.trans habs) hphase

theorem Settled.step (h : Settled s) (ht : Step s e t) : Settled t := by
  rw [Step, StreamIo.step] at ht
  split_ifs at ht with henabled
  cases e with
  | poll =>
    cases ht
    exact ⟨h.quiet.register, h.shutdown⟩
  | io events error => exact h.uvStreamIo ht
  | pending error =>
    apply Settled.uvStreamIo ?_ ht
    exact ⟨h.quiet.unlink, h.shutdown⟩
  | buffer len result =>
    simp only [next] at ht
    split at ht
    · exact h.uvRead ht
    · cases ht
  | answer result =>
    obtain ⟨u, hwrite, rfl⟩ := map_eq_some_iff.mp ht
    exact .uvWriteCallbacks (h.uvWrite hwrite).quiet
  | shutdownAnswer errno =>
    cases ht
    exact ⟨(h.syscall (h.shutdown henabled)).quiet, by simp⟩
  | finish =>
    simp only [next] at ht
    split at ht
    · exact .readReturned h.quiet ht
    · cases ht
      exact .uvWriteCallbacks h.quiet
    · cases ht
      exact ⟨h.quiet, by simp⟩
    · cases ht
      exact .connectReturned h.quiet
    · cases ht
  | readStart => exact h.uvReadStart ht
  | readStop =>
    cases ht
    have hstop := h.uvReadStop
    have hentry : Quiet _ _ (.stop :: s.uvReadStop.log) := hstop.quiet.entry (by simp) (by simp)
    rw [log_uvReadStop] at hentry
    exact ⟨hentry, hstop.shutdown⟩
  | write2 emptyQueue result => exact h.uvWrite2 ht
  | shutdown => exact h.uvShutdown ht
  | tcpConnect errno => exact h.uvTcpConnect henabled.2.1 ht
  | pipeConnect error => exact h.uvPipeConnect henabled.2.1 ht
  | streamOpen fd =>
    cases ht
    exact h.uvStreamOpen henabled.2.1
  | close =>
    cases ht
    exact h.uvStreamClose henabled.1.2

theorem Settled.of_reachable (h : Reachable Init Step s) : Settled s := by
  apply h.invariant
  · intro s hs
    have hinit := Quiet.init hs.queued hs.pevents
    refine ⟨?_, fun habs => ?_⟩
    · rw [hs.closing, hs.log]
      exact hinit
    · cases hs.phase.symm.trans habs
  · exact fun s e t _ hs hst => hs.step hst

end StreamIo

/-! ### Udp handles -/

namespace UdpIo

variable {s t : UdpIo} {e : Event} {events : PollEvents}

/-- A closed handle has nothing left to send where `uv__udp_sendmsg` follows. -/
structure Settled (s : UdpIo) : Prop where
  quiet : Quiet s.watcher s.closing s.log
  flushed : s.closing = true → s.phase.sends = true → s.writeQueue = 0

/-- What `uv__udp_io` asks of the callbacks that close its handle, and `uv_udp_bind` of its caller:
nothing is left to send when `uv__udp_sendmsg` follows, a closed handle gets no buffer, and only a
watcher that is not started may lose its descriptor. -/
def Careful (s : UdpIo) : Event → Prop
  | .close => s.phase.sends = true → s.writeQueue = 0
  | .buffer len _ => s.closing = true → len = 0
  | .bind _ fails => fails = true → s.watcher.queued = false ∧ s.watcher.pevents = .empty
  | _ => True

instance (s : UdpIo) (e : Event) : Decidable (Careful s e) := by
  induction e using Event.casesOn <;> dsimp only [Careful] <;> infer_instance

theorem Settled.syscall (h : Settled s) (hclosing : s.closing = false) : Settled s.syscall := by
  have hquiet := h.quiet
  rw [hclosing] at hquiet
  refine ⟨?_, h.flushed⟩
  change Quiet s.watcher s.closing _
  rw [hclosing]
  exact hquiet.syscall

theorem Settled.of_open (h : Quiet s.watcher false s.log) (hclosing : s.closing = false) :
    Settled s := by
  refine ⟨hclosing ▸ h, fun habs => ?_⟩
  cases hclosing.symm.trans habs

theorem Settled.start {m : PollMask} (h : Settled s) (ht : s.uvIoStart m = some t) : Settled t := by
  obtain ⟨watcher, hstart, rfl⟩ := map_eq_some_iff.mp ht
  exact ⟨h.quiet.start hstart, h.flushed⟩

theorem Settled.uvUdpSendmsg (h : Settled s) (sent : ℕ)
    (hsends : s.closing = true → s.writeQueue = 0) : Settled (s.uvUdpSendmsg sent) := by
  unfold UdpIo.uvUdpSendmsg
  by_cases hempty : s.writeQueue = 0
  · rw [if_pos hempty]
    exact h
  · have hclosing : s.closing = false := by
      by_contra hset
      exact hempty (hsends (by simpa using hset))
    have hcall := (h.syscall hclosing).quiet
    change Quiet s.watcher s.closing (.syscall :: s.log) at hcall
    rw [hclosing] at hcall
    rw [if_neg hempty]
    refine Settled.of_open ?_ hclosing
    split_ifs
    · exact hcall
    · exact hcall.feed

theorem Settled.uvUdpCallbacks (h : Quiet s.watcher s.closing s.log) :
    Settled s.uvUdpCallbacks := by
  unfold UdpIo.uvUdpCallbacks
  split_ifs
  · exact ⟨h, nofun⟩
  · exact ⟨h.stop, nofun⟩
  · exact ⟨h, nofun⟩

theorem Settled.afterRecv (h : Quiet s.watcher s.closing s.log)
    (hsends : s.closing = true → events.output = true → s.writeQueue = 0) :
    Settled (s.afterRecv events) := by
  unfold UdpIo.afterRecv
  split_ifs with houtput
  · exact ⟨h, fun hclosing _ => hsends hclosing houtput⟩
  · exact ⟨h, nofun⟩

/-- A callback of `uv__udp_recvmsg` is called, with the events that are still to be handled. -/
theorem Settled.callRecv {again : Bool} {count : ℕ} (h : Quiet s.watcher s.closing s.log)
    (hsends : s.closing = true → events.output = true → s.writeQueue = 0)
    (ht : s.callRecv again events count = some t) : Settled t := by
  unfold UdpIo.callRecv at ht
  split_ifs at ht
  cases ht
  exact ⟨h, hsends⟩

theorem Settled.uvUdpIo (h : Quiet s.watcher s.closing s.log)
    (hsends : s.closing = true → events.output = true → s.writeQueue = 0)
    (ht : s.uvUdpIo events = some t) : Settled t := by
  unfold UdpIo.uvUdpIo at ht
  split_ifs at ht
  · cases ht
    exact ⟨h, hsends⟩
  · cases ht
    exact .afterRecv h hsends

theorem Settled.uvUdpOpen (h : Settled s) (hclosing : s.closing = false) (fd : ℤ) :
    Settled (s.uvUdpOpen fd) := by
  have hquiet := h.quiet
  rw [hclosing] at hquiet
  unfold UdpIo.uvUdpOpen
  split_ifs with hopen
  · exact h
  · obtain ⟨hqueued, hpevents⟩ := h.quiet.not_started (not_not.mp hopen)
    exact .of_open (hquiet.setFd hqueued hpevents) hclosing

theorem closing_uvUdpOpen {fd : ℤ} : (s.uvUdpOpen fd).closing = s.closing := by
  unfold UdpIo.uvUdpOpen
  split_ifs <;> rfl

theorem started_uvUdpOpen (s : UdpIo) (fd : ℤ) :
    (s.uvUdpOpen fd).watcher.queued = s.watcher.queued ∧
    (s.uvUdpOpen fd).watcher.pevents = s.watcher.pevents := by
  unfold UdpIo.uvUdpOpen
  split_ifs <;> exact ⟨rfl, rfl⟩

theorem Settled.uvUdpBind {fd : ℤ} {fails : Bool} (h : Settled s) (hclosing : s.closing = false)
    (hfails : fails = true → s.watcher.queued = false ∧ s.watcher.pevents = .empty) :
    Settled (s.uvUdpBind fd fails) := by
  have hopen : (s.uvUdpOpen fd).syscall.closing = false := closing_uvUdpOpen.trans hclosing
  have hopened := (h.uvUdpOpen hclosing fd).syscall hopen
  obtain ⟨hsameq, hsamep⟩ := started_uvUdpOpen s fd
  unfold UdpIo.uvUdpBind
  split_ifs with hset
  · obtain ⟨hqueued, hpevents⟩ := hfails hset
    have hquiet := hopened.quiet
    rw [hopen] at hquiet
    refine .of_open ?_ hopen
    exact hquiet.setFd (hsameq.trans hqueued) (hsamep.trans hpevents)
  · exact hopened

theorem Settled.uvUdpSend {sent : ℕ} (h : Settled s) (hclosing : s.closing = false)
    (ht : s.uvUdpSend sent = some t) : Settled t := by
  have hquiet := h.quiet
  rw [hclosing] at hquiet
  have hqueued : Settled { s with writeQueue := s.writeQueue + 1 } := .of_open hquiet hclosing
  unfold UdpIo.uvUdpSend at ht
  dsimp only at ht
  split_ifs at ht
  · cases ht
    apply hqueued.uvUdpSendmsg sent
    intro habs
    cases hclosing.symm.trans habs
  · exact hqueued.start ht

theorem Settled.uvUdpClose (h : Settled s) (hflushed : s.phase.sends = true → s.writeQueue = 0) :
    Settled s.uvUdpClose := by
  obtain ⟨-, hpending, hqueued, hpevents⟩ := IoWatcher.uvIoClose_spec h.quiet.known
  exact ⟨h.quiet.close hqueued hpevents rfl hpending, fun _ => hflushed⟩

theorem Settled.step (h : Settled s) (hcareful : Careful s e) (ht : Step s e t) : Settled t := by
  rw [Step, UdpIo.step] at ht
  split_ifs at ht with henabled
  cases e with
  | poll =>
    simp only [next] at ht
    split_ifs at ht
    cases ht
    exact ⟨h.quiet.register, h.flushed⟩
  | io events =>
    apply Settled.uvUdpIo h.quiet ?_ ht
    intro habs
    cases henabled.2.symm.trans habs
  | pending =>
    apply Settled.uvUdpIo h.quiet.unlink ?_ ht
    intro hclosing
    exact absurd henabled.2 (h.quiet.closed hclosing).2
  | buffer len again =>
    have hflushed := h.flushed
    simp only [next] at ht
    split at ht
    · rename_i events count hphase
      rw [hphase] at hflushed
      unfold UdpIo.uvUdpRecvmsg at ht
      split_ifs at ht with hlen
      · exact .callRecv h.quiet hflushed ht
      · have hclosing : s.closing = false := by
          by_contra hset
          exact hlen (hcareful (by simpa using hset))
        exact .callRecv (h.syscall hclosing).quiet hflushed ht
    · cases ht
  | answer sent =>
    have hflushed := h.flushed
    rw [henabled.1] at hflushed
    have hsent := h.uvUdpSendmsg sent fun hclosing => hflushed hclosing rfl
    simp only [next, UdpIo.uvUdpRunCompleted] at ht
    split_ifs at ht
    cases ht
    apply Settled.uvUdpCallbacks
    exact hsent.quiet
  | finish =>
    have hflushed := h.flushed
    simp only [next] at ht
    split at ht
    · rename_i again events count hphase
      rw [hphase] at hflushed
      unfold UdpIo.recvReturned at ht
      split_ifs at ht
      · cases ht
        exact ⟨h.quiet, hflushed⟩
      · cases ht
        exact .afterRecv h.quiet hflushed
    · cases ht
      exact .uvUdpCallbacks h.quiet
    · cases ht
  | udpOpen fd =>
    cases ht
    exact h.uvUdpOpen henabled.1.2 fd
  | bind fd fails =>
    cases ht
    exact h.uvUdpBind henabled.1.2 hcareful
  | send sent => exact h.uvUdpSend henabled.1.2 ht
  | trySend =>
    cases ht
    unfold UdpIo.uvUdpTrySend
    split_ifs
    · exact h
    · exact h.syscall henabled.1.2
  | recvStart =>
    simp only [next, UdpIo.uvUdpRecvStart] at ht
    split_ifs at ht
    · cases ht
      exact h
    · apply Settled.start ?_ ht
      exact { h with }
  | recvStop =>
    cases ht
    exact ⟨h.quiet.stop, h.flushed⟩
  | close =>
    cases ht
    exact h.uvUdpClose hcareful

theorem Settled.of_reachable (h : Reachable Init (Guarded Careful Step) s) : Settled s := by
  apply h.invariant
  · intro s hs
    have hinit := Quiet.init hs.queued hs.pevents
    refine .of_open ?_ hs.closing
    rw [hs.log]
    exact hinit
  · exact fun s e t _ hs hst => hs.step hst.1 hst.2

end UdpIo

/-- A stream that is closed in a callback makes no system call afterwards and is in no queue of the
loop, whatever the callbacks do; and so is a udp handle, if `Careful` holds of its callbacks. -/
theorem closed_watchers (s : StreamIo) (u : UdpIo) :
    (Reachable StreamIo.Init StreamIo.Step s → Justified Silent s.log ∧
      (s.closing = true → s.watcher.pending ≠ .linked ∧ s.watcher.queued = false)) ∧
    (Reachable UdpIo.Init (Guarded UdpIo.Careful UdpIo.Step) u → Justified Silent u.log ∧
      (u.closing = true → u.watcher.pending ≠ .linked ∧ u.watcher.queued = false)) := by
  constructor
  · intro h
    have hquiet := (StreamIo.Settled.of_reachable h).quiet
    refine ⟨hquiet.silent, fun hclosing => ?_⟩
    rw [hclosing] at hquiet
    exact hquiet.not_queued
  · intro h
    have hquiet := (UdpIo.Settled.of_reachable h).quiet
    refine ⟨hquiet.silent, fun hclosing => ?_⟩
    rw [hclosing] at hquiet
    exact hquiet.not_queued

/-! ### Concrete runs -/

namespace UdpIo

def openUdp : UdpIo :=
  ⟨⟨5, .empty, .empty, .self, false, 16⟩, false, false, 0, 0, false, .idle, []⟩

theorem init_openUdp : Init openUdp := ⟨by decide, rfl, rfl, rfl, rfl, rfl, rfl, rfl⟩

end UdpIo

/-- `read_cb` and `recv_cb` close their handles. -/
theorem closed_watchers_in_callback : ∃ (s : StreamIo) (u : UdpIo),
    s.log = [.close, .called 3, .syscall, .start] ∧ u.log = [.close, .syscall] ∧
    (s.watcher.pending ≠ .linked ∧ s.watcher.queued = false) ∧
    u.watcher.pending ≠ .linked ∧ u.watcher.queued = false := by
  have hstream : ([StreamIo.Event.readStart, .poll, .io StreamIo.readable 0, .buffer 10 (.bytes 3 0),
      .close, .finish].foldlM StreamIo.step StreamIo.openStream).isSome = true := by decide
  have hudp : ([UdpIo.Event.recvStart, .poll, .io ⟨true, true, false, false⟩, .buffer 10 true,
      .close, .finish, .answer 0].foldlM (fun s e => if UdpIo.Careful s e then UdpIo.step s e else
        none) UdpIo.openUdp).isSome = true := by decide
  have hboth := closed_watchers (Option.get _ hstream) (Option.get _ hudp)
  refine ⟨_, _, by rfl, by rfl, (hboth.1 ?_).2 (by rfl), (hboth.2 ?_).2 (by rfl)⟩
  · exact .of_foldlM (.init StreamIo.connected_openStream.1) (Option.some_get hstream).symm
  · exact .of_foldlM_if (.init UdpIo.init_openUdp) (Option.some_get hudp).symm

/-- `recv_cb` closes a handle that has datagrams to send, which `uv__udp_sendmsg` then sends; or it
binds the handle again, which fails, and closes it. -/
theorem closed_watcher_linked :
    (∃ s : UdpIo, Reachable UdpIo.Init UdpIo.Step s ∧ s.closing = true ∧
      s.watcher.pending = .linked ∧ s.log.take 2 = [.syscall, .close]) ∧
    ∃ s : UdpIo, Reachable UdpIo.Init UdpIo.Step s ∧ s.closing = true ∧
      s.watcher.queued = true := by
  constructor
  · have hsome : ([UdpIo.Event.recvStart, .send 0, .send 0, .poll, .io ⟨true, true, false, false⟩,
        .buffer 10 true, .close, .finish, .answer 1].foldlM UdpIo.step UdpIo.openUdp).isSome =
          true := by decide
    exact ⟨_, .of_foldlM (.init UdpIo.init_openUdp) (Option.some_get hsome).symm, by rfl, by rfl,
      by rfl⟩
  · have hsome : ([UdpIo.Event.recvStart, .poll, .io ⟨true, false, false, false⟩, .buffer 10 true,
        .send 0, .send 0, .bind 5 true, .close].foldlM UdpIo.step UdpIo.openUdp).isSome = true := by
      decide
    exact ⟨_, .of_foldlM (.init UdpIo.init_openUdp) (Option.some_get hsome).symm, by rfl, by rfl⟩

end LibuvWorks.Unix
