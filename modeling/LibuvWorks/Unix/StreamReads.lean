import LibuvWorks.Lib.History
import LibuvWorks.Lib.Transition
import LibuvWorks.Unix.StreamIo

/-!
# Reading starts and stops

`UV_STREAM_READING` and `POLLIN` change together, except while `read_cb` is told of the end of the
stream, where `uv__stream_eof` has stopped `POLLIN` before and clears the flag after the callback,
and in `uv_pipe_connect`, which arms `POLLIN` with `POLLOUT`.
-/
namespace LibuvWorks.Unix

open History Transition List

namespace StreamIo

variable {s t : StreamIo} {e : Event} {events : PollEvents}

/-- `uv_read_start` was called since the last `uv_read_stop`, end of the stream or close. -/
def permitted : List IoEntry → Bool
  | [] => false
  | .start :: _ => true
  | .stop :: _ => false
  | .close :: _ => false
  | .called nread :: older => if nread = uvEof then false else permitted older
  | .syscall :: older => permitted older

/-- A call of `read_cb` is permitted. -/
def Obeys (entry : IoEntry) (older : List IoEntry) : Prop :=
  ∀ nread, entry = .called nread → permitted older = true

/-- What holds between the steps of the callbacks; `eof` says that `read_cb` is told `UV_EOF`,
`late` that `connect_cb` runs. -/
structure Consistent (s : StreamIo) (eof late : Bool) : Prop where
  known : s.watcher.Known
  fd : s.closing = false → 0 ≤ s.watcher.fd
  closed : s.closing = true → s.watcher.fd = -1 ∧ s.watcher.pending ≠ .linked
  reading : late = false → s.connecting = false → s.watcher.pevents.input = true → s.reading = true
  armed : eof = false → s.reading = true → s.watcher.pevents.input = true
  readCb : s.reading = true → s.readCb = true ∧ s.closing = false
  permitted : eof = false → s.reading = true → permitted s.log = true
  justified : Justified Obeys s.log
  starts : s.log.count (.called uvEof) + (if StreamIo.permitted s.log then 1 else 0) ≤
    s.log.count .start

theorem Consistent.of_eq {eof late : Bool} (h : Consistent s eof late)
    (hwatcher : t.watcher = s.watcher) (hclosing : t.closing = s.closing)
    (hconnecting : t.connecting = s.connecting) (hreading : t.reading = s.reading)
    (hreadCb : t.readCb = s.readCb) (hlog : t.log = s.log) : Consistent t eof late := by
  obtain ⟨known, fd, closed, reading, armed, readCb, permitted, justified, starts⟩ := h
  constructor <;> simp only [hwatcher, hclosing, hconnecting, hreading, hreadCb, hlog] <;>
    assumption

theorem Consistent.of_not_late {late : Bool} (h : Consistent s false false) :
    Consistent s false late :=
  { h with reading := fun _ => h.reading rfl }

theorem Consistent.of_late {late : Bool} (h : Consistent s false late)
    (hreading : s.connecting = false → s.watcher.pevents.input = true → s.reading = true) :
    Consistent s false false :=
  { h with reading := fun _ => hreading }

/-- `UV_STREAM_READING` and `POLLIN` agree, but in two of the callbacks; `alloc_cb` runs with the
flag set, unless it has stopped reading, and `uv__write` runs on an open stream. -/
structure Agrees (s : StreamIo) : Prop where
  consistent : Consistent s s.phase.isEof s.phase.isConnect
  alloc : s.phase.isAlloc = true → s.readCb = true → s.reading = true
  write : s.phase = .write → s.closing = false

theorem Agrees.of_consistent (h : Consistent s false false) (hwatcher : t.watcher = s.watcher)
    (hclosing : t.closing = s.closing) (hconnecting : t.connecting = s.connecting)
    (hreading : t.reading = s.reading) (hreadCb : t.readCb = s.readCb) (hlog : t.log = s.log)
    (heof : t.phase.isEof = false) (halloc : t.phase.isAlloc = false)
    (hwrite : t.phase = .write → t.closing = false) : Agrees t := by
  have hconsistent := h.of_eq hwatcher hclosing hconnecting hreading hreadCb hlog
  refine ⟨?_, fun habs => ?_, hwrite⟩
  · rw [heof]
    exact hconsistent.of_not_late
  · cases halloc.symm.trans habs

structure SameReading (s t : StreamIo) : Prop where
  phase : t.phase = s.phase
  readCb : t.readCb = s.readCb
  reading : t.reading = s.reading
  closing : t.closing = s.closing

/-! ### The watcher -/

section Watcher

variable {eof late : Bool}

section

variable (h : Consistent s eof late)
include h

theorem Consistent.syscall : Consistent s.syscall eof late := by
  obtain ⟨known, fd, closed, reading, armed, readCb, permitted, justified, starts⟩ := h
  refine ⟨known, fd, closed, reading, armed, readCb, permitted, ?_, ?_⟩
  · exact justified_cons.mpr ⟨nofun, justified⟩
  · simpa [StreamIo.syscall, StreamIo.permitted] using starts

theorem Consistent.watcher {watcher : IoWatcher}
    (hknown : watcher.Known)
    (hfd : watcher.fd = s.watcher.fd)
    (hpending : s.closing = true → watcher.pending ≠ .linked)
    (hinput : watcher.pevents.input = s.watcher.pevents.input) :
    Consistent { s with watcher } eof late := by
  exact { h with
    known := hknown
    fd := hfd ▸ h.fd
    closed := fun hclosing => ⟨hfd ▸ (h.closed hclosing).1, hpending hclosing⟩
    reading := hinput ▸ h.reading
    armed := hinput ▸ h.armed }

theorem Consistent.open_of_fd (hfd : 0 ≤ s.watcher.fd) :
    s.closing = false := by
  by_contra hclosing
  have hclosed := (h.closed (by simpa using hclosing)).1
  omega

theorem Consistent.feed (hclosing : s.closing = false) :
    Consistent { s with watcher := s.watcher.uvIoFeed } eof late := by
  refine h.watcher { h.known with } rfl (fun habs => ?_) rfl
  cases hclosing.symm.trans habs

theorem Consistent.unlink :
    Consistent { s with watcher := s.watcher.unlink } eof late :=
  h.watcher { h.known with } rfl (fun _ => nofun) rfl

theorem Consistent.register :
    Consistent { s with watcher := s.watcher.register } eof late := by
  unfold IoWatcher.register
  split_ifs
  · exact h.watcher ⟨nofun, h.known.pevents⟩ rfl (fun hclosing => (h.closed hclosing).2) rfl
  · exact h.watcher h.known rfl (fun hclosing => (h.closed hclosing).2) rfl

theorem Consistent.stopOut :
    Consistent (s.uvIoStop .pollOut) eof late := by
  refine h.watcher h.known.uvIoStop IoWatcher.fd_uvIoStop (fun hclosing => ?_) ?_
  · rw [IoWatcher.pending_uvIoStop]
    exact (h.closed hclosing).2
  · rw [IoWatcher.pevents_uvIoStop h.known]
    exact Bool.and_true _

theorem Consistent.startOut (hfd : 0 ≤ s.watcher.fd) :
    ∃ t, s.uvIoStart .pollOut = some t ∧ Consistent t eof late ∧ SameReading s t := by
  obtain ⟨watcher, hstart⟩ := IoWatcher.uvIoStart_isSome (m := .pollOut) hfd
  obtain ⟨-, hsame, hpending, hpevents, -⟩ := IoWatcher.uvIoStart_spec hstart
  refine ⟨{ s with watcher }, ?_, h.watcher (.uvIoStart hstart) hsame (fun hclosing => ?_) ?_,
    ⟨rfl, rfl, rfl, rfl⟩⟩
  · rw [uvIoStart, hstart]
    rfl
  · rw [hpending]
    exact (h.closed hclosing).2
  · rw [hpevents]
    exact Bool.or_false _

theorem stopIn_input :
    (s.uvIoStop .pollIn).watcher.pevents.input = false := by
  dsimp only [uvIoStop]
  rw [IoWatcher.pevents_uvIoStop h.known]
  exact Bool.and_false _

end

end Watcher

/-! ### Writing -/

theorem Consistent.uvWrite {eof late : Bool} (h : Consistent s eof late) (hfd : 0 ≤ s.watcher.fd)
    (result : WriteResult) :
    ∃ t, s.uvWrite result = some t ∧ Consistent t eof late ∧ SameReading s t := by
  unfold StreamIo.uvWrite
  rw [if_neg (Int.not_lt.mpr hfd)]
  split_ifs
  · exact ⟨s, rfl, h, ⟨rfl, rfl, rfl, rfl⟩⟩
  · have hfed := h.syscall.feed (h.open_of_fd hfd)
    cases result with
    | done => exact ⟨_, rfl, hfed.of_eq rfl rfl rfl rfl rfl rfl, ⟨rfl, rfl, rfl, rfl⟩⟩
    | failed =>
      refine ⟨_, rfl, Consistent.stopOut ?_, ⟨rfl, rfl, rfl, rfl⟩⟩
      exact hfed.of_eq rfl rfl rfl rfl rfl rfl
    | later =>
      obtain ⟨t, ht, hconsistent, hsame⟩ := h.syscall.startOut hfd
      exact ⟨t, ht, hconsistent, { hsame with }⟩

theorem Consistent.uvDrain (h : Consistent s false false) : Agrees s.uvDrain := by
  unfold StreamIo.uvDrain
  dsimp only
  split_ifs
  · exact .of_consistent h.stopOut rfl rfl rfl rfl rfl rfl rfl rfl nofun
  · exact .of_consistent h.stopOut rfl rfl rfl rfl rfl rfl rfl rfl nofun

theorem Consistent.uvWriteCallbacks {caller : Caller} (h : Consistent s false false) :
    Agrees (s.uvWriteCallbacks caller) := by
  unfold StreamIo.uvWriteCallbacks
  split_ifs
  · exact .of_consistent h rfl rfl rfl rfl rfl rfl rfl rfl nofun
  · exact h.uvDrain
  · exact .of_consistent h rfl rfl rfl rfl rfl rfl rfl rfl nofun

theorem Consistent.writes (h : Consistent s false false) (hfd : 0 ≤ s.watcher.fd) :
    ∃ t, s.writes events = some t ∧ Agrees t := by
  unfold StreamIo.writes
  split_ifs with hevents hneg hqueue
  · omega
  · exact ⟨_, rfl, h.uvWriteCallbacks⟩
  · exact ⟨_, rfl, .of_consistent h rfl rfl rfl rfl rfl rfl rfl rfl fun _ => h.open_of_fd hfd⟩
  · exact ⟨_, rfl, .of_consistent h rfl rfl rfl rfl rfl rfl rfl rfl nofun⟩

/-! ### Reading -/

section

variable (h : Consistent s false false)
include h

/-- `read_cb` is told of data or of an error, which is permitted while the flag is set. -/
theorem Consistent.callRead {nread : ℤ} {after : AfterRead}
    (hreading : s.reading = true) (hnread : nread ≠ uvEof) (hafter : after ≠ .eof) :
    ∃ t, s.callRead nread after events = some t ∧ Agrees t := by
  have hpermitted := h.permitted rfl hreading
  have hsame : StreamIo.permitted (.called nread :: s.log) = StreamIo.permitted s.log :=
    if_neg hnread
  have heof : (StreamPhase.readCb after events).isEof = false := by
    cases after with
    | eof => exact absurd rfl hafter
    | _ => rfl
  refine ⟨_, if_pos (h.readCb hreading).1, ?_, nofun, nofun⟩
  rw [heof]
  exact { h with
    permitted := fun _ _ => hsame.trans hpermitted
    justified := justified_cons.mpr ⟨fun _ _ => hpermitted, h.justified⟩
    starts := by
      rw [hsame, count_cons_of_ne (by simpa using hnread)]
      exact h.starts }

theorem Consistent.uvStreamEof (hreading : s.reading = true) :
    ∃ t, s.uvStreamEof events = some t ∧ Agrees t := by
  have hpermitted := h.permitted rfl hreading
  have hinput := stopIn_input h
  have hstarts := h.starts
  rw [hpermitted] at hstarts
  have hfd : (s.watcher.uvIoStop .pollIn).fd = s.watcher.fd := IoWatcher.fd_uvIoStop
  have hpending : (s.watcher.uvIoStop .pollIn).pending = s.watcher.pending :=
    IoWatcher.pending_uvIoStop
  refine ⟨_, if_pos (h.readCb hreading).1, ?_, nofun, nofun⟩
  constructor
  · exact h.known.uvIoStop
  · exact hfd ▸ h.fd
  · exact hfd ▸ hpending ▸ h.closed
  · intro _ _ habs
    cases hinput.symm.trans habs
  · nofun
  · exact h.readCb
  · nofun
  · exact justified_cons.mpr ⟨fun _ _ => hpermitted, h.justified⟩
  · rw [count_cons_self, count_cons_of_ne (by simp)]
    exact hstarts

theorem Consistent.afterRead :
    ∃ t, s.afterRead events = some t ∧ Agrees t := by
  unfold StreamIo.afterRead
  split_ifs with hclosed heof
  · exact ⟨_, rfl, .of_consistent h rfl rfl rfl rfl rfl rfl rfl rfl nofun⟩
  · exact h.uvStreamEof heof.2.1
  · apply h.writes
    apply h.fd
    by_contra hclosing
    exact hclosed (h.closed (by simpa using hclosing)).1

theorem Consistent.readLoop {count : ℕ} :
    ∃ t, s.readLoop events count = some t ∧ Agrees t := by
  unfold StreamIo.readLoop
  split_ifs with hloop
  · exact ⟨_, rfl, h.of_eq rfl rfl rfl rfl rfl rfl, fun _ _ => hloop.2.1, nofun⟩
  · exact h.afterRead

theorem Consistent.uvRead {count len : ℕ} {result : ReadResult}
    (hreading : s.reading = true) (hgives : Gives len result) :
    ∃ t, s.uvRead events count len result = some t ∧ Agrees t := by
  have hfd := h.fd (h.readCb hreading).2
  unfold StreamIo.uvRead
  split_ifs with hlen hneg
  · exact h.callRead hreading (by decide) nofun
  · omega
  · have hcall := h.syscall
    cases result with
    | fails errno =>
      obtain ⟨-, -, herrno⟩ := hgives
      dsimp only
      split_ifs with hagain hset
      · obtain ⟨watcher, hstart⟩ := IoWatcher.uvIoStart_isSome (m := .pollIn) hfd
        obtain ⟨-, hsame, hpending, hpevents, -⟩ := IoWatcher.uvIoStart_spec hstart
        have hinput : watcher.pevents.input = s.watcher.pevents.input := by
          rw [hpevents, h.armed rfl hreading]
          exact Bool.or_true _
        have hstarted : s.syscall.uvIoStart .pollIn = some { s.syscall with watcher } := by
          exact congrArg (Option.map _) hstart
        rw [hstarted]
        refine (hcall.watcher (.uvIoStart hstart) hsame (fun hclosing => ?_) hinput).callRead hreading
          (by decide) nofun
        rw [hpending]
        exact (h.closed hclosing).2
      · exact absurd hreading hset
      · apply hcall.callRead hreading ?_ (by simp)
        unfold uvEof
        omega
    | bytes n cmsgErr =>
      obtain ⟨-, hlow, -⟩ := hgives
      dsimp only
      split_ifs with hzero hcmsg
      · exact hcall.uvStreamEof hreading
      · apply hcall.callRead hreading ?_ (by simp)
        unfold uvEof
        omega
      · apply hcall.callRead hreading ?_ (by simp)
        unfold uvEof
        omega

end

theorem Consistent.clear {eof : Bool} (h : Consistent s eof false)
    (hinput : s.connecting = false → s.watcher.pevents.input = false) :
    Consistent { s with reading := false } false false := by
  refine ⟨h.known, h.fd, h.closed, fun _ hconnecting habs => ?_, fun _ => nofun, nofun,
    fun _ => nofun, h.justified, h.starts⟩
  cases (hinput hconnecting).symm.trans habs

theorem Consistent.stopIn {eof late : Bool} {readCb : Bool} (h : Consistent s eof late) :
    Consistent ({ s with reading := false, readCb }.uvIoStop .pollIn) eof late := by
  have hinput := stopIn_input h
  have hfd : (s.watcher.uvIoStop .pollIn).fd = s.watcher.fd := IoWatcher.fd_uvIoStop
  have hpending : (s.watcher.uvIoStop .pollIn).pending = s.watcher.pending :=
    IoWatcher.pending_uvIoStop
  refine ⟨h.known.uvIoStop, hfd ▸ h.fd, hfd ▸ hpending ▸ h.closed, fun _ _ habs => ?_,
    fun _ => nofun, nofun, fun _ => nofun, h.justified, h.starts⟩
  cases hinput.symm.trans habs

/-- `read_cb` returns, and not from the end of the stream with reading started again. -/
theorem Agrees.readReturned {after : AfterRead} (h : Agrees s)
    (hphase : s.phase = .readCb after events)
    (heof : s.phase.isEof = true → s.connecting = false → s.watcher.pevents.input = false) :
    ∃ t, s.readReturned after events = some t ∧ Agrees t := by
  have hconsistent := h.consistent
  rw [hphase] at hconsistent heof
  unfold StreamIo.readReturned
  cases after with
  | leave => exact hconsistent.afterRead
  | error =>
    split_ifs
    · exact (Consistent.stopIn hconsistent).afterRead
    · exact hconsistent.afterRead
  | eof => exact (hconsistent.clear (heof rfl)).afterRead
  | data count full =>
    dsimp only
    split_ifs
    · exact hconsistent.readLoop
    · exact (hconsistent.of_eq (t := { s with readPartial := true }) rfl rfl rfl rfl rfl
        rfl).afterRead

/-! ### The watcher and the user -/

section

variable (h : Consistent s false false) {error : ℤ}
include h

theorem Consistent.connectCall (hphase : s.phase = .idle) : Agrees (s.connectCall error) := by
  have hlate : Consistent { s with connecting := false } false true :=
    { h with reading := nofun }
  unfold StreamIo.connectCall
  dsimp only
  split_ifs
  · apply Agrees.of_consistent h rfl rfl rfl rfl rfl rfl
    · exact congrArg StreamPhase.isEof hphase
    · exact congrArg StreamPhase.isAlloc hphase
    · intro habs
      cases hphase.symm.trans habs
  · exact ⟨hlate.stopOut.of_eq rfl rfl rfl rfl rfl rfl, nofun, nofun⟩
  · exact ⟨hlate.of_eq rfl rfl rfl rfl rfl rfl, nofun, nofun⟩

theorem Consistent.uvStreamConnect (hphase : s.phase = .idle) (hclosing : s.closing = false) :
    ∃ t, s.uvStreamConnect error = some t ∧ Agrees t := by
  unfold StreamIo.uvStreamConnect
  split_ifs with hdelayed hneg
  · have hcleared : Consistent { s with delayedError := 0 } false false :=
      h.of_eq rfl rfl rfl rfl rfl rfl
    exact ⟨_, rfl, hcleared.connectCall hphase⟩
  · exact absurd (h.fd hclosing) (Int.not_le.mpr hneg)
  · exact ⟨_, rfl, h.syscall.connectCall hphase⟩

theorem Consistent.connectReturned : Agrees (s.connectReturned error) := by
  unfold StreamIo.connectReturned
  split_ifs
  · exact .of_consistent h rfl rfl rfl rfl rfl rfl rfl rfl nofun
  · apply Consistent.uvWriteCallbacks
    exact h.of_eq rfl rfl rfl rfl rfl rfl

theorem Consistent.uvStreamIo (hphase : s.phase = .idle)
    (hclosing : s.closing = false) : ∃ t, s.uvStreamIo events error = some t ∧ Agrees t := by
  unfold StreamIo.uvStreamIo
  split_ifs with hset hconnecting hneg hread
  · cases hclosing.symm.trans hset
  · exact h.uvStreamConnect hphase hclosing
  · exact absurd (h.fd hclosing) (Int.not_le.mpr hneg)
  · exact (h.of_eq (t := { s with readPartial := false }) rfl rfl rfl rfl rfl rfl).readLoop
  · exact h.afterRead

end

theorem Agrees.uvReadStart (h : Agrees s) : ∃ t, s.uvReadStart = some t ∧ Agrees t := by
  unfold StreamIo.uvReadStart
  split_ifs with hclosing
  · exact ⟨s, rfl, h⟩
  · have hclosing : s.closing = false := by simpa using hclosing
    obtain ⟨watcher, hstart⟩ := IoWatcher.uvIoStart_isSome (m := .pollIn) (h.consistent.fd hclosing)
    obtain ⟨-, hsame, -, hpevents, -⟩ := IoWatcher.uvIoStart_spec hstart
    have hinput : watcher.pevents.input = true := by
      rw [hpevents]
      exact Bool.or_true _
    refine ⟨_, congrArg (Option.map _) hstart, ?_, fun _ _ => rfl, fun _ => hclosing⟩
    constructor
    · exact .uvIoStart hstart
    · exact hsame ▸ h.consistent.fd
    · intro habs
      cases hclosing.symm.trans habs
    · exact fun _ _ _ => rfl
    · exact fun _ _ => hinput
    · exact fun _ => ⟨rfl, hclosing⟩
    · exact fun _ _ => rfl
    · exact justified_cons.mpr ⟨nofun, h.consistent.justified⟩
    · have hstarts := h.consistent.starts
      change (IoEntry.start :: s.log).count _ + 1 ≤ (IoEntry.start :: s.log).count _
      rw [count_cons_self, count_cons_of_ne (by simp)]
      omega

theorem Consistent.uvReadStop {eof late : Bool} (h : Consistent s eof late) :
    Consistent s.uvReadStop eof late ∧ s.uvReadStop.reading = false := by
  unfold StreamIo.uvReadStop
  split_ifs with hreading
  · exact ⟨h.stopIn, rfl⟩
  · exact ⟨h, by simpa using hreading⟩

theorem Consistent.record {eof late : Bool} (h : Consistent s eof late)
    (hreading : s.reading = false) :
    Consistent { s with log := .stop :: s.log } eof late := by
  have hstarts := h.starts
  refine { h with permitted := fun _ habs => ?_, justified := ?_, starts := ?_ }
  · cases hreading.symm.trans habs
  · exact justified_cons.mpr ⟨nofun, h.justified⟩
  · change (IoEntry.stop :: s.log).count _ + 0 ≤ (IoEntry.stop :: s.log).count _
    rw [count_cons_of_ne (by simp), count_cons_of_ne (by simp)]
    omega

theorem phase_uvReadStop : s.uvReadStop.phase = s.phase := by
  unfold StreamIo.uvReadStop
  split_ifs <;> rfl

theorem log_uvReadStop : s.uvReadStop.log = s.log := by
  unfold StreamIo.uvReadStop
  split_ifs <;> rfl

theorem Agrees.alloc_uvReadStop (h : Agrees s) (halloc : s.phase.isAlloc = true) :
    s.uvReadStop.readCb = false := by
  unfold StreamIo.uvReadStop
  split_ifs with hreading
  · rfl
  · by_contra hset
    exact hreading (h.alloc halloc (by simpa using hset))

theorem Agrees.readStop (h : Agrees s) (hcalls : s.Calls) :
    Agrees { s.uvReadStop with log := .stop :: s.log } := by
  obtain ⟨hconsistent, hreading⟩ := h.consistent.uvReadStop
  have hstop := hconsistent.record hreading
  rw [log_uvReadStop] at hstop
  constructor
  · rw [phase_uvReadStop]
    exact hstop
  · intro halloc hreadCb
    rw [phase_uvReadStop] at halloc
    cases (h.alloc_uvReadStop halloc).symm.trans hreadCb
  · intro hwrite
    exact absurd (phase_uvReadStop.symm.trans hwrite) hcalls.1

theorem uvStreamClose_spec (hknown : s.watcher.Known) : s.uvStreamClose.closing = true ∧
    s.uvStreamClose.log = .close :: s.log ∧ s.uvStreamClose.phase = s.phase ∧
    s.uvStreamClose.watcher.fd = -1 ∧ s.uvStreamClose.watcher.pending ≠ .linked ∧
    s.uvStreamClose.watcher.queued = false ∧ s.uvStreamClose.watcher.pevents = .empty := by
  obtain ⟨-, hpending, hqueued, hpevents⟩ := IoWatcher.uvIoClose_spec hknown
  obtain ⟨hqueued', hpevents'⟩ := IoWatcher.uvIoStop_of_empty (m := .pollIn) hqueued hpevents
  unfold uvStreamClose uvReadStop
  dsimp only
  split_ifs
  · refine ⟨rfl, rfl, rfl, rfl, ?_, hqueued', hpevents'⟩
    change (s.watcher.uvIoClose.uvIoStop .pollIn).pending ≠ .linked
    rw [IoWatcher.pending_uvIoStop]
    exact hpending
  · exact ⟨rfl, rfl, rfl, rfl, hpending, hqueued, hpevents⟩

theorem Agrees.uvStreamClose (h : Agrees s) (hcalls : s.Calls) : Agrees s.uvStreamClose := by
  obtain ⟨hclosing, hlog, hphase, hfd, hpending, hqueued, hpevents⟩ :=
    uvStreamClose_spec h.consistent.known
  have hreading : s.uvStreamClose.reading = false := by
    unfold StreamIo.uvStreamClose StreamIo.uvReadStop
    dsimp only
    split_ifs with hset
    · rfl
    · simpa using hset
  have hinput : s.uvStreamClose.watcher.pevents.input = false := by
    rw [hpevents]
    rfl
  constructor
  · constructor
    · refine ⟨fun habs => ?_, fun hne => absurd hpevents hne⟩
      cases hqueued.symm.trans habs
    · intro habs
      cases hclosing.symm.trans habs
    · exact fun _ => ⟨hfd, hpending⟩
    · intro _ _ habs
      cases hinput.symm.trans habs
    · intro _ habs
      cases hreading.symm.trans habs
    · intro habs
      cases hreading.symm.trans habs
    · intro _ habs
      cases hreading.symm.trans habs
    · rw [hlog]
      exact justified_cons.mpr ⟨nofun, h.consistent.justified⟩
    · have hstarts := h.consistent.starts
      rw [hlog]
      change (IoEntry.close :: s.log).count _ + 0 ≤ (IoEntry.close :: s.log).count _
      rw [count_cons_of_ne (by simp), count_cons_of_ne (by simp)]
      omega
  · intro halloc hreadCb
    have halloc : s.phase.isAlloc = true := hphase ▸ halloc
    have hnone : s.uvStreamClose.readCb = false := by
      unfold StreamIo.uvStreamClose StreamIo.uvReadStop
      dsimp only
      split_ifs with hset
      · rfl
      · by_contra hcb
        exact hset (h.alloc halloc (by simpa using hcb))
    cases hnone.symm.trans hreadCb
  · intro hwrite
    exact absurd (hphase.symm.trans hwrite) hcalls.1

theorem Agrees.of_same (h : Agrees s) (hconsistent : Consistent t s.phase.isEof s.phase.isConnect)
    (hsame : SameReading s t) : Agrees t := by
  constructor
  · rw [hsame.phase]
    exact hconsistent
  · rw [hsame.phase, hsame.readCb, hsame.reading]
    exact h.alloc
  · rw [hsame.phase, hsame.closing]
    exact h.write

theorem Agrees.startOut (h : Agrees s) (hconsistent : Consistent t s.phase.isEof s.phase.isConnect)
    (hsame : SameReading s t) (hfd : 0 ≤ t.watcher.fd) :
    ∃ u, t.uvIoStart .pollOut = some u ∧ Agrees u := by
  obtain ⟨u, hstart, hu, hsame'⟩ := hconsistent.startOut hfd
  exact ⟨u, hstart, h.of_same hu ⟨hsame'.phase.trans hsame.phase, hsame'.readCb.trans hsame.readCb,
    hsame'.reading.trans hsame.reading, hsame'.closing.trans hsame.closing⟩⟩

theorem Agrees.uvWrite2 {emptyQueue : Bool} {result : WriteResult} (h : Agrees s) :
    ∃ t, s.uvWrite2 emptyQueue result = some t ∧ Agrees t := by
  have hqueued : Consistent { s with writeQueue := s.writeQueue + 1 } s.phase.isEof
      s.phase.isConnect :=
    h.consistent.of_eq rfl rfl rfl rfl rfl rfl
  unfold StreamIo.uvWrite2
  dsimp only
  split_ifs with hneg
  · exact ⟨s, rfl, h⟩
  · exact ⟨_, rfl, h.of_same hqueued ⟨rfl, rfl, rfl, rfl⟩⟩
  · obtain ⟨t, hwrite, ht, hsame⟩ := hqueued.uvWrite (Int.not_lt.mp hneg) result
    exact ⟨t, hwrite, h.of_same ht { hsame with }⟩
  · exact h.startOut hqueued ⟨rfl, rfl, rfl, rfl⟩ (Int.not_lt.mp hneg)

theorem Agrees.uvShutdown (h : Agrees s) : ∃ t, s.uvShutdown = some t ∧ Agrees t := by
  unfold StreamIo.uvShutdown
  split_ifs with hrefused
  · exact ⟨s, rfl, h⟩
  · have hclosing : s.closing = false := by
      simpa using (not_or.mp (not_or.mp hrefused).2).2
    exact h.startOut (h.consistent.of_eq rfl rfl rfl rfl rfl rfl) ⟨rfl, rfl, rfl, rfl⟩
      (h.consistent.fd hclosing)

theorem Consistent.connecting {eof late : Bool} (h : Consistent s eof late) (delayedError : ℤ) :
    Consistent { s with connecting := true, delayedError } eof late :=
  { h with reading := fun _ => nofun }

theorem Agrees.uvTcpConnect {errno : ℕ} (h : Agrees s) (hfd : 0 ≤ s.watcher.fd) :
    ∃ t, s.uvTcpConnect errno = some t ∧ Agrees t := by
  unfold StreamIo.uvTcpConnect
  by_cases hset : s.connecting = true
  · rw [if_pos hset]
    exact ⟨s, rfl, h⟩
  · rw [if_neg hset]
    by_cases herrno : errno = 0 ∨ errno = einprogress ∨ errno = econnrefused
    · obtain ⟨t, hstart, ht, hsame⟩ := (h.consistent.syscall.connecting _).startOut hfd
      refine ⟨_, (if_pos herrno).trans (congrArg (Option.map _) hstart), ?_⟩
      change Agrees (if t.delayedError = 0 then t else _)
      split_ifs
      · exact h.of_same ht { hsame with }
      · exact h.of_same (ht.feed (hsame.closing.trans (h.consistent.open_of_fd hfd)))
          { hsame with }
    · refine ⟨_, if_neg herrno, h.of_same ?_ ⟨rfl, rfl, rfl, rfl⟩⟩
      exact h.consistent.syscall.of_eq rfl rfl rfl rfl rfl rfl

theorem Agrees.uvPipeConnect {error : ℤ} (h : Agrees s) (hclosing : s.closing = false) :
    ∃ t, s.uvPipeConnect error = some t ∧ Agrees t := by
  have hfd := h.consistent.fd hclosing
  have hopen : s.watcher.fd ≠ -1 := by omega
  have hcall := h.consistent.syscall.connecting error
  unfold StreamIo.uvPipeConnect
  rw [if_neg hopen]
  by_cases herror : error = 0
  · obtain ⟨watcher, hstart⟩ := IoWatcher.uvIoStart_isSome (m := ⟨true, true⟩) hfd
    obtain ⟨-, hsame, hpending, hpevents, -⟩ := IoWatcher.uvIoStart_spec hstart
    have hinput : watcher.pevents.input = true := by
      rw [hpevents]
      exact Bool.or_true _
    refine ⟨_, (if_pos herror).trans (congrArg (Option.map _) hstart),
      h.of_same ?_ ⟨rfl, rfl, rfl, rfl⟩⟩
    exact { hcall with
      known := .uvIoStart hstart
      fd := hsame ▸ hcall.fd
      closed := by
        intro habs
        cases hclosing.symm.trans habs
      reading := fun _ => nofun
      armed := fun _ _ => hinput }
  · exact ⟨_, if_neg herror, h.of_same (hcall.feed hclosing) ⟨rfl, rfl, rfl, rfl⟩⟩

/-! ### Runs -/

/-- `alloc_cb` does not return with reading stopped, `read_cb` does not return from the end of the
stream with reading started again, and `connect_cb` does not return with `POLLIN` armed by
`uv_pipe_connect` and reading not started. -/
def Careful (s : StreamIo) : Event → Prop
  | .buffer _ _ => s.readCb = true
  | .finish =>
    s.connecting = false → s.watcher.pevents.input = true →
      s.phase.isEof = false ∧ (s.phase.isConnect = true → s.reading = true)
  | _ => True

instance (s : StreamIo) (e : Event) : Decidable (Careful s e) := by
  induction e using Event.casesOn <;> dsimp only [Careful] <;> infer_instance

theorem Agrees.step (h : Agrees s) (henabled : s.Enabled e) (hcareful : Careful s e) :
    ∃ t, s.step e = some t ∧ Agrees t := by
  rw [StreamIo.step, if_pos henabled]
  cases e with
  | poll => exact ⟨_, rfl, h.of_same h.consistent.register ⟨rfl, rfl, rfl, rfl⟩⟩
  | io events error =>
    obtain ⟨hphase, hclosing, -⟩ := henabled
    have hconsistent := h.consistent
    rw [hphase] at hconsistent
    exact Consistent.uvStreamIo hconsistent hphase hclosing
  | pending error =>
    obtain ⟨hphase, hlinked, -⟩ := henabled
    have hconsistent := h.consistent
    rw [hphase] at hconsistent
    apply Consistent.uvStreamIo (Consistent.unlink hconsistent) hphase
    by_contra hclosing
    exact (h.consistent.closed (by simpa using hclosing)).2 hlinked
  | buffer len result =>
    obtain ⟨halloc, hgives⟩ := henabled
    have hconsistent := h.consistent
    have hreading := h.alloc halloc hcareful
    cases hphase : s.phase with
    | alloc events count =>
      rw [hphase] at hconsistent
      simp only [next, hphase]
      exact Consistent.uvRead hconsistent hreading hgives
    | _ => simp [hphase, StreamPhase.isAlloc] at halloc
  | answer result =>
    have hconsistent := h.consistent
    have hfd := h.consistent.fd (h.write henabled)
    rw [henabled] at hconsistent
    obtain ⟨t, hwrite, ht, -⟩ := Consistent.uvWrite hconsistent hfd result
    refine ⟨_, congrArg (Option.map _) hwrite, Consistent.uvWriteCallbacks ht⟩
  | shutdownAnswer errno =>
    have hconsistent := h.consistent
    rw [henabled] at hconsistent
    exact ⟨_, rfl,
      .of_consistent (Consistent.syscall hconsistent) rfl rfl rfl rfl rfl rfl rfl rfl nofun⟩
  | finish =>
    have hconsistent := h.consistent
    cases hphase : s.phase with
    | readCb after events =>
      simp only [next, hphase]
      apply h.readReturned hphase
      intro heof hconnecting
      by_contra hinput
      cases heof.symm.trans (hcareful hconnecting (by simpa using hinput)).1
    | writeCb caller =>
      rw [hphase] at hconsistent
      simp only [next, hphase]
      exact ⟨_, rfl, Consistent.uvWriteCallbacks hconsistent⟩
    | shutdownCb =>
      rw [hphase] at hconsistent
      simp only [next, hphase]
      exact ⟨_, rfl, .of_consistent hconsistent rfl rfl rfl rfl rfl rfl rfl rfl nofun⟩
    | connectCb error =>
      have hlate : s.phase.isConnect = true := by rw [hphase]; rfl
      rw [hphase] at hconsistent
      simp only [next, hphase]
      refine ⟨_, rfl,
        Consistent.connectReturned (Consistent.of_late hconsistent fun hconnecting hinput => ?_)⟩
      exact (hcareful hconnecting hinput).2 hlate
    | _ =>
      have hcallback : s.phase.isCallback = true := henabled
      simp [hphase, StreamPhase.isCallback] at hcallback
  | readStart => exact h.uvReadStart
  | readStop => exact ⟨_, rfl, h.readStop henabled⟩
  | write2 emptyQueue result => exact h.uvWrite2
  | shutdown => exact h.uvShutdown
  | tcpConnect errno => exact h.uvTcpConnect henabled.2.2
  | pipeConnect error => exact h.uvPipeConnect henabled.2.1
  | streamOpen fd =>
    obtain ⟨-, hclosing, -⟩ := henabled
    have hfd := h.consistent.fd hclosing
    refine ⟨_, rfl, ?_⟩
    unfold uvStreamOpen
    split_ifs with hopen
    · obtain rfl : s.watcher.fd = fd := hopen.resolve_left (by omega)
      exact h
    · exact h
  | close => exact ⟨_, rfl, h.uvStreamClose henabled.1⟩

def Connected (s : StreamIo) : Prop := Init s ∧ 0 ≤ s.watcher.fd

theorem Agrees.of_connected (h : Connected s) : Agrees s := by
  obtain ⟨hinit, hfd⟩ := h
  have hinput : s.watcher.pevents.input = false := by
    rw [hinit.pevents]
    rfl
  refine .of_consistent ?_ rfl rfl rfl rfl rfl rfl ?_ ?_ fun habs => ?_
  · constructor
    · refine ⟨fun habs => ?_, fun hne => absurd hinit.pevents hne⟩
      cases hinit.queued.symm.trans habs
    · exact fun _ => hfd
    · intro habs
      cases hinit.closing.symm.trans habs
    · intro _ _ habs
      cases hinput.symm.trans habs
    · intro _ habs
      cases hinit.reading.symm.trans habs
    · intro habs
      cases hinit.reading.symm.trans habs
    · intro _ habs
      cases hinit.reading.symm.trans habs
    · rw [hinit.log]
      exact justified_nil
    · simp [hinit.log, StreamIo.permitted]
  · exact congrArg StreamPhase.isEof hinit.phase
  · exact congrArg StreamPhase.isAlloc hinit.phase
  · cases hinit.phase.symm.trans habs

theorem Agrees.of_reachable (h : Reachable Connected (Guarded Careful Step) s) : Agrees s := by
  apply h.invariant
  · exact fun s hs => .of_connected hs
  · rintro s e t - hs ⟨hcareful, hstep⟩
    have henabled : s.Enabled e := by
      by_contra hne
      rw [Step, StreamIo.step, if_neg hne] at hstep
      cases hstep
    obtain ⟨u, hu, hagrees⟩ := hs.step henabled hcareful
    rw [Step, hu] at hstep
    cases hstep
    exact hagrees

/-- If no callback returns with reading as `Careful` excludes it, `UV_STREAM_READING` says of a
connected stream, between the callbacks of the loop, whether `POLLIN` is armed, `read_cb` is called
only while it is permitted, with `UV_EOF` at most once for each `uv_read_start`, and no assertion
fails. -/
theorem reading_consistent (h : Reachable Connected (Guarded Careful Step) s) :
    (s.phase = .idle → s.connecting = false →
      (s.reading = true ↔ s.watcher.pevents.input = true)) ∧
    Justified Obeys s.log ∧
    s.log.count (.called uvEof) ≤ s.log.count .start ∧
    ∀ e, s.Enabled e → Careful s e → ∃ t, Step s e t := by
  have hs := Agrees.of_reachable h
  refine ⟨fun hphase hconnecting => ?_, hs.consistent.justified,
    Nat.le_trans (Nat.le_add_right ..) hs.consistent.starts, fun e henabled hcareful => ?_⟩
  · have hconsistent := hs.consistent
    rw [hphase] at hconsistent
    exact ⟨hconsistent.armed rfl, hconsistent.reading rfl hconnecting⟩
  · obtain ⟨t, ht, -⟩ := hs.step henabled hcareful
    exact ⟨t, ht⟩

/-! ### Concrete runs -/

def openStream : StreamIo :=
  ⟨⟨5, .empty, .empty, .self, false, 16⟩, false, false, false, false, false, false, false, 0, 0, 0,
    false, false, .idle, []⟩

theorem connected_openStream : Connected openStream :=
  ⟨⟨by decide, rfl, rfl, rfl, rfl, rfl, rfl, rfl, rfl, rfl⟩, by decide⟩

/-- `POLLIN` and `POLLHUP` -/
def readable : PollEvents := ⟨true, false, false, true⟩

/-- Three bytes that do not fill the buffer are followed by the end of the stream. -/
theorem reading_consistent_partial : ∃ s : StreamIo,
    s.log = [.called uvEof, .called 3, .syscall, .start] ∧
    (s.reading = true ↔ s.watcher.pevents.input = true) := by
  have hsome : ([Event.readStart, .poll, .io readable 0, .buffer 10 (.bytes 3 0), .finish,
      .finish].foldlM (fun s e => if Careful s e then step s e else none) openStream).isSome =
        true := by decide
  have hreading := reading_consistent (.of_foldlM_if (.init connected_openStream)
    (Option.some_get hsome).symm)
  exact ⟨_, by rfl, hreading.1 (by rfl) (by rfl)⟩

/-- `read_cb` is told of the end of the stream, and starts to read again; or a pipe is connected and
nothing is read. -/
theorem armed_without_reading :
    (∃ s : StreamIo, Reachable Connected Step s ∧ s.phase = .idle ∧ s.log.head? = some .start ∧
      s.reading = false ∧ s.watcher.pevents.input = true) ∧
    ∃ s : StreamIo, Reachable Connected Step s ∧ s.phase = .idle ∧ s.connecting = false ∧
      s.reading = false ∧ s.watcher.pevents.input = true := by
  constructor
  · have hsome : ([Event.readStart, .poll, .io ⟨true, false, false, false⟩ 0,
        .buffer 10 (.bytes 0 0), .readStart, .finish].foldlM step openStream).isSome = true := by
      decide
    exact ⟨_, .of_foldlM (.init connected_openStream) (Option.some_get hsome).symm, by rfl, by rfl,
      by rfl, by rfl⟩
  · have hsome : ([Event.pipeConnect 0, .poll, .io ⟨false, true, false, false⟩ 0,
        .finish].foldlM step openStream).isSome = true := by decide
    exact ⟨_, .of_foldlM (.init connected_openStream) (Option.some_get hsome).symm, by rfl, by rfl,
      by rfl, by rfl⟩

end StreamIo

end LibuvWorks.Unix
