import LibuvWorks.Win.PipeReads
import LibuvWorks.Win.TcpBind

/-!
# Failing to write to a Windows pipe

`uv_pipe_write_impl` for all kinds of pipes, with every system call that may fail. On an ipc pipe it
writes a header first, with a request of its own if data follows, and counts that request before the
data is written.
-/

namespace LibuvWorks.Win.PipeWriteErrors

open List

/-- What `GetLastError` returns behind a call that failed -/
abbrev WriteError := { e : ℤ // e ≠ 0 }

/-- What `WriteFile` says: the bytes are written, they will be (`ERROR_IO_PENDING`), or it fails. -/
inductive FileWrite where
  | done
  | pending
  | failed (e : WriteError)
  deriving DecidableEq

/-- The info of the duplicated socket and what is on the stack, and what the calls return: that of
`uv_tcp_duplicate_socket`, of `WriteFile` and `WaitForSingleObject` for the header and for the data,
and of `RegisterWaitForSingleObject` -/
structure ImplCalls where
  socketInfoEx : SocketInfoEx
  padding : BitVec 32
  garbage : BitVec 64
  duplicate : Option WriteError
  header : FileWrite
  headerWait : Option WriteError
  data : FileWrite
  dataWait : Option WriteError
  registerWait : Option WriteError

structure PipeKind where
  ipc : Bool
  nonOverlapped : Bool
  blockingWrites : Bool
  emulateIocp : Bool

/-- A request: one of the user's, `ipc_header_write_req`, or one that was allocated for a header -/
inductive ReqName (ρ : Type*) where
  | user (r : ρ) : ReqName ρ
  | ipcHeader : ReqName ρ
  | allocated (n : ℕ) : ReqName ρ
  deriving DecidableEq

/-- The counters of a pipe and its loop. `reports` are the requests whose completion the loop is told
of, now or later, `queue` those that wait for a thread, and `sent` what the peer gets. -/
structure PipeState (ρ : Type*) where
  reqsPending : ℕ
  writeReqsPending : ℕ
  activecnt : ℕ
  writeQueueSize : ℕ
  activeReqs : List (ReqName ρ)
  reports : List (ReqName ρ)
  queue : List ρ
  sent : List UInt8
  ipcHeaderUsed : Bool
  allocated : ℕ

variable {ρ : Type*} (k : PipeKind) (s : PipeState ρ) (r : ρ) (bufs : List UvBuf)
  (sendHandle : Option SendHandle) (c : ImplCalls)

namespace PipeState

/-- `REGISTER_HANDLE_REQ`, and the two counters behind it -/
def register (name : ReqName ρ) : PipeState ρ :=
  { s with
    activecnt := s.activecnt + 1
    activeReqs := s.activeReqs ++ [name]
    reqsPending := s.reqsPending + 1
    writeReqsPending := s.writeReqsPending + 1 }

/-- An overlapped write is accepted. Its completion is reported by the port of the loop, which a pipe
with an emulated port has not. -/
def accept (name : ReqName ρ) (bytes : List UInt8) : PipeState ρ :=
  { s with
    sent := s.sent ++ bytes
    reports := if k.emulateIocp then s.reports else s.reports ++ [name] }

end PipeState

open PipeState

def frameOf : IpcFrame where
  socket := sendHandle.map fun tcp => (c.socketInfoEx, tcp.connection)
  data := bufs.head?
  padding := c.padding
  garbage := c.garbage

/-- The request that the header is written with -/
def headerReq : ReqName ρ × PipeState ρ :=
  if bufs = [] then (.user r, s)
  else if s.ipcHeaderUsed = false then (.ipcHeader, { s with ipcHeaderUsed := true })
  else (.allocated s.allocated, { s with allocated := s.allocated + 1 })

/-- The part of `uv_pipe_write_impl` that writes the header and waits for that -/
def writeHeader : ℤ × PipeState ρ :=
  let name := (headerReq s r bufs).1
  let s := (headerReq s r bufs).2
  let sent := s.accept k name (frameOf bufs sendHandle c).headerBytes
  match c.header, c.headerWait with
  | .failed e, _ => (e, s)
  | .done, _ => (0, sent.register name)
  | .pending, some e => (e, sent)
  | .pending, none => (0, sent.register name)

def errorIoPending : ℤ := 997

/-- The part of `uv_pipe_write_impl` that writes the data -/
def writeData (buf : UvBuf) : ℤ × PipeState ρ :=
  let sent := s.accept k (.user r) buf.1
  let queued : PipeState ρ := { sent with writeQueueSize := s.writeQueueSize + buf.1.length }
  if k.blockingWrites ∧ k.nonOverlapped then
    match c.data with
    | .failed e => (e, s)
    | .pending => (errorIoPending, s)
    | .done =>
      let s := { s with sent := s.sent ++ buf.1 }.register (.user r)
      (0, { s with reports := s.reports ++ [ReqName.user r] })
  else if k.nonOverlapped then
    let s : PipeState ρ :=
      { s with
        queue := s.queue ++ [r]
        writeQueueSize := s.writeQueueSize + buf.1.length }
    (0, s.register (.user r))
  else if k.blockingWrites then
    match c.data, c.dataWait with
    | .failed e, _ => (e, s)
    | .done, _ => (0, sent.register (.user r))
    | .pending, some e => (uvTranslateSysError e, queued)
    | .pending, none => (0, queued.register (.user r))
  else
    match c.data with
    | .failed e => (e, s)
    | _ =>
      let s := if c.data = .done then sent else queued
      if k.emulateIocp then
        match c.registerWait with
        | some e => (e, s)
        | none => (0, { s with reports := s.reports ++ [ReqName.user r] }.register (.user r))
      else (0, s.register (.user r))

/-- `uv_pipe_write_impl`; none if an assertion fails, or `bufs[0]` is not there. -/
def uvPipeWriteImpl : Option (ℤ × PipeState ρ) :=
  if bufs.length ≠ 1 ∧ (bufs.length ≠ 0 ∨ sendHandle = none) then some (errorNotSupported, s)
  else if sendHandle.any fun h => !h.tcp || !h.bound && !h.connection then
    some (errorNotSupported, s)
  else if k.ipc = false then bufs.head?.map (writeData k s r c)
  else if k.nonOverlapped then none
  else
    match sendHandle.bind fun _ => c.duplicate with
    | some e => some (e, s)
    | none =>
      let header := writeHeader k s r bufs sendHandle c
      if header.1 ≠ 0 then some header
      else
        match bufs.head? with
        | none => some (0, header.2)
        | some buf => some (writeData k header.2 r c buf)

/-- Whole frames, between which the parser of the peer is in step -/
inductive Frames : List UInt8 → Prop
  | nil : Frames []
  | cons (frame : IpcFrame) {bytes : List UInt8} :
    Frames bytes → Frames (frame.headerBytes ++ frame.bytes ++ bytes)

/-- Nothing is counted, the callback of the request will not be called for this write, and on an ipc
pipe whole frames have been sent. -/
structure Undone [DecidableEq ρ] (t : PipeState ρ) : Prop where
  reqsPending : t.reqsPending = s.reqsPending
  writeReqsPending : t.writeReqsPending = s.writeReqsPending
  activecnt : t.activecnt = s.activecnt
  writeQueueSize : t.writeQueueSize = s.writeQueueSize
  activeReqs : t.activeReqs = s.activeReqs
  reports : t.reports.count (ReqName.user r) = s.reports.count (ReqName.user r)
  queue : t.queue = s.queue
  inStep : k.ipc = true → ∃ bytes, t.sent = s.sent ++ bytes ∧ Frames bytes

/-! ### Frames -/

theorem Frames.of_frame (frame : IpcFrame) : Frames (frame.headerBytes ++ frame.bytes) := by
  have hframe := Frames.nil.cons frame
  rwa [append_nil] at hframe

theorem length_headerBytes (frame : IpcFrame) : frame.headerBytes.length =
    sizeofIpcFrameHeader + if frame.socket.isSome then sizeofSocketInfoEx else 0 := by
  rw [IpcFrame.headerBytes, length_append, IpcFrameHeader.length_toBytes]
  cases hsocket : frame.socket with
  | none => rfl
  | some socket => simp [socket.1.2]

theorem header_eq_of_take (frame : IpcFrame) (bytes : List UInt8) :
    IpcFrameHeader.ofBytes ((frame.headerBytes ++ bytes).take sizeofIpcFrameHeader) =
      frame.header := by
  rw [IpcFrame.headerBytes, append_assoc, take_left' IpcFrameHeader.length_toBytes,
    IpcFrameHeader.ofBytes_toBytes]

theorem not_frames_headerBytes {frame : IpcFrame} {buf : UvBuf} (hdata : frame.data = some buf)
    (hbuf : buf.1 ≠ []) : ¬Frames frame.headerBytes := by
  intro hframes
  have hlen := length_headerBytes frame
  generalize hbytes : frame.headerBytes = bytes at hframes hlen
  cases hframes with
  | nil =>
    rw [length_nil, sizeofIpcFrameHeader] at hlen
    omega
  | @cons frame' rest hrest =>
    have hheader : frame.header = frame'.header := by
      rw [← header_eq_of_take frame [], append_nil, hbytes,
        append_assoc, header_eq_of_take]
    obtain ⟨hserver, -, hraw, -⟩ := frame.flags_spec
    obtain ⟨hserver', -, hraw', -⟩ := frame'.flags_spec
    rw [← hheader] at hserver' hraw'
    obtain ⟨buf', hdata'⟩ : ∃ buf', frame'.data = some buf' := by
      apply Option.isSome_iff_exists.mp
      rw [← hraw', hraw, hdata]
      rfl
    have hsocket : frame.socket.isSome = frame'.socket.isSome :=
      Bool.eq_iff_iff.mpr (hserver.symm.trans hserver')
    have hlength : buf.1.length = buf'.1.length := by
      rw [← IpcFrame.rawDataLength hdata, ← IpcFrame.rawDataLength hdata', hheader]
    have hpos := length_pos_iff.mpr hbuf
    have hbytes' : frame'.bytes = buf'.1 := by
      rw [IpcFrame.bytes, hdata']
      rfl
    rw [length_append, length_append, length_headerBytes, hbytes', hsocket] at hlen
    omega

/-! ### The data -/

variable {k s r bufs sendHandle c} {buf : UvBuf}

/-- A call for the data fails. -/
def DataFails (k : PipeKind) (c : ImplCalls) : Prop :=
  if k.nonOverlapped then k.blockingWrites = true ∧ c.data ≠ .done
  else
    (∃ e, c.data = .failed e) ∨
      if k.blockingWrites then c.data = .pending ∧ c.dataWait ≠ none
      else k.emulateIocp = true ∧ c.registerWait ≠ none

/-- The bytes have been accepted and counted when a call for the data fails. -/
def DataLate (k : PipeKind) (c : ImplCalls) (buf : UvBuf) : Prop :=
  k.nonOverlapped = false ∧ c.data = .pending ∧
    if k.blockingWrites then c.dataWait ≠ none ∧ (buf.1 ≠ [] ∨ k.emulateIocp = false)
    else k.emulateIocp = true ∧ c.registerWait ≠ none ∧ buf.1 ≠ []

inductive DataFailure (k : PipeKind) (s : PipeState ρ) (r : ρ) (c : ImplCalls) (buf : UvBuf) :
    PipeState ρ → Prop
  | refused : ¬DataLate k c buf → DataFailure k s r c buf s
  | unwaited : k.nonOverlapped = false → c.data = .pending →
      (k.blockingWrites = true ∧ c.dataWait ≠ none ∨
        k.blockingWrites = false ∧ k.emulateIocp = true ∧ c.registerWait ≠ none) →
      DataFailure k s r c buf { s.accept k (.user r) buf.1 with
        writeQueueSize := s.writeQueueSize + buf.1.length }
  | unregistered : c.data = .done → k.emulateIocp = true →
      DataFailure k s r c buf (s.accept k (.user r) buf.1)

theorem writeData_cases (k : PipeKind) (s : PipeState ρ) (r : ρ) (c : ImplCalls) (buf : UvBuf) :
    (¬DataFails k c ∧ (writeData k s r c buf).1 = 0) ∨
      (DataFails k c ∧ (writeData k s r c buf).1 ≠ 0 ∧
        DataFailure k s r c buf (writeData k s r c buf).2) := by
  obtain ⟨ipc, nonOverlapped, blockingWrites, emulateIocp⟩ := k
  unfold writeData DataFails
  cases nonOverlapped with
  | true =>
    have hrefused : DataFailure ⟨ipc, true, blockingWrites, emulateIocp⟩ s r c buf s :=
      .refused nofun
    cases blockingWrites with
    | false => exact .inl ⟨nofun, rfl⟩
    | true =>
      cases hdata : c.data with
      | done => exact .inl ⟨fun h => h.2 rfl, rfl⟩
      | pending => exact .inr ⟨⟨rfl, nofun⟩, by simp [errorIoPending], hrefused⟩
      | failed e => exact .inr ⟨⟨rfl, nofun⟩, e.2, hrefused⟩
  | false =>
    simp only [Bool.false_eq_true, and_false, if_false]
    cases blockingWrites with
    | true =>
      simp only [if_true]
      cases hdata : c.data with
      | done => exact .inl ⟨by rintro (⟨e, ⟨⟩⟩ | ⟨⟨⟩, -⟩), rfl⟩
      | pending =>
        cases hwait : c.dataWait with
        | none => exact .inl ⟨by rintro (⟨e, ⟨⟩⟩ | ⟨-, hne⟩); exact hne rfl, rfl⟩
        | some e =>
          exact .inr ⟨.inr ⟨rfl, nofun⟩, Int.ne_of_lt (uvTranslateSysError_neg e.2),
            .unwaited rfl hdata (.inl ⟨rfl, by simp [hwait]⟩)⟩
      | failed e =>
        refine .inr ⟨.inl ⟨e, rfl⟩, e.2, .refused fun hlate => ?_⟩
        exact nomatch hdata.symm.trans hlate.2.1
    | false =>
      simp only [Bool.false_eq_true, if_false]
      cases hdata : c.data with
      | failed e =>
        refine .inr ⟨.inl ⟨e, rfl⟩, e.2, .refused fun hlate => ?_⟩
        exact nomatch hdata.symm.trans hlate.2.1
      | done =>
        cases emulateIocp with
        | false => exact .inl ⟨by rintro (⟨e, ⟨⟩⟩ | ⟨⟨⟩, -⟩), rfl⟩
        | true =>
          cases hregister : c.registerWait with
          | none => exact .inl ⟨by rintro (⟨e, ⟨⟩⟩ | ⟨-, hne⟩); exact hne rfl, rfl⟩
          | some e => exact .inr ⟨.inr ⟨rfl, nofun⟩, e.2, .unregistered hdata rfl⟩
      | pending =>
        cases emulateIocp with
        | false => exact .inl ⟨by rintro (⟨e, ⟨⟩⟩ | ⟨⟨⟩, -⟩), rfl⟩
        | true =>
          cases hregister : c.registerWait with
          | none => exact .inl ⟨by rintro (⟨e, ⟨⟩⟩ | ⟨-, hne⟩); exact hne rfl, rfl⟩
          | some e =>
            exact .inr ⟨.inr ⟨rfl, nofun⟩, e.2,
              .unwaited rfl hdata (.inr ⟨rfl, rfl, by simp [hregister]⟩)⟩

section

variable [DecidableEq ρ] {t : PipeState ρ}

theorem count_accept_user (k : PipeKind) (s : PipeState ρ) (r : ρ) (bytes : List UInt8) :
    (s.accept k (.user r) bytes).reports.count (ReqName.user r) =
      s.reports.count (ReqName.user r) + if k.emulateIocp then 0 else 1 := by
  unfold accept
  dsimp only
  split_ifs
  · rfl
  · rw [count_append, count_singleton_self]

theorem DataFailure.reqsPending (h : DataFailure k s r c buf t) :
    t.reqsPending = s.reqsPending := by
  cases h <;> rfl

/-- On a pipe without frames a failure is undone unless the bytes were accepted and counted. -/
theorem DataFailure.undone_iff (h : DataFailure k s r c buf t) (hipc : k.ipc = false) :
    Undone k s r t ↔ ¬DataLate k c buf := by
  have hno : k.ipc = true → ∃ bytes, t.sent = s.sent ++ bytes ∧ Frames bytes :=
    fun habs => nomatch hipc.symm.trans habs
  cases h with
  | refused hlate => exact iff_of_true ⟨rfl, rfl, rfl, rfl, rfl, rfl, rfl, hno⟩ hlate
  | unwaited hoverlapped hpending hfails =>
    have hcount := count_accept_user k s r buf.1
    have hlate : DataLate k c buf ↔ buf.1 ≠ [] ∨ k.emulateIocp = false := by
      unfold DataLate
      rcases hfails with ⟨hblocking, hwait⟩ | ⟨hblocking, hemulate, hregister⟩
      · rw [if_pos hblocking]
        exact ⟨fun h => h.2.2.2, fun h => ⟨hoverlapped, hpending, hwait, h⟩⟩
      · rw [if_neg (by simp [hblocking]), hemulate]
        exact ⟨fun h => .inl h.2.2.2.2, fun h =>
          ⟨hoverlapped, hpending, rfl, hregister, h.resolve_right nofun⟩⟩
    rw [hlate, not_or, not_not, Bool.not_eq_false]
    constructor
    · intro hundone
      have hsize : s.writeQueueSize + buf.1.length = s.writeQueueSize := hundone.writeQueueSize
      have hsame := hcount.symm.trans hundone.reports
      refine ⟨length_eq_zero_iff.mp (by omega), ?_⟩
      by_contra hemulate
      rw [if_neg hemulate] at hsame
      omega
    · rintro ⟨hnil, hemulate⟩
      rw [if_pos hemulate] at hcount
      refine ⟨rfl, rfl, rfl, ?_, rfl, hcount, rfl, hno⟩
      change s.writeQueueSize + buf.1.length = s.writeQueueSize
      rw [hnil, length_nil, Nat.add_zero]
  | unregistered hdone hemulate =>
    have hcount := count_accept_user k s r buf.1
    rw [if_pos hemulate] at hcount
    refine iff_of_true ⟨rfl, rfl, rfl, rfl, rfl, hcount, rfl, hno⟩ fun hlate => ?_
    exact nomatch hdone.symm.trans hlate.2.1

/-! ### The header -/

def HeaderSent (c : ImplCalls) : Prop :=
  c.header = .done ∨ c.header = .pending ∧ c.headerWait = none

/-- The wait for a header fails when that was accepted, and a callback or data is to follow. -/
def HeaderLate (k : PipeKind) (bufs : List UvBuf) (c : ImplCalls) : Prop :=
  c.header = .pending ∧ c.headerWait ≠ none ∧
    match bufs.head? with
    | none => k.emulateIocp = false
    | some buf => buf.1 ≠ []

theorem headerReq_undone (s : PipeState ρ) (r : ρ) (bufs : List UvBuf) :
    Undone k s r (headerReq s r bufs).2 := by
  have hnil : k.ipc = true → ∃ bytes, s.sent = s.sent ++ bytes ∧ Frames bytes :=
    fun _ => ⟨[], (append_nil _).symm, .nil⟩
  unfold headerReq
  split_ifs <;> exact ⟨rfl, rfl, rfl, rfl, rfl, rfl, rfl, hnil⟩

theorem headerReq_sent (s : PipeState ρ) (r : ρ) (bufs : List UvBuf) :
    (headerReq s r bufs).2.sent = s.sent := by
  unfold headerReq
  split_ifs <;> rfl

/-- A write that was accepted is undone if it is not reported for the user's request, and is a whole
frame. -/
theorem Undone.accept_iff (h : Undone k s r t) (hsent : t.sent = s.sent) (hipc : k.ipc = true)
    (name : ReqName ρ) (bytes : List UInt8) : Undone k s r (t.accept k name bytes) ↔
      (name = .user r → k.emulateIocp = true) ∧ Frames bytes := by
  constructor
  · intro hundone
    constructor
    · rintro rfl
      have hcount := (count_accept_user k t r bytes).symm.trans hundone.reports
      rw [h.reports] at hcount
      by_contra hemulate
      rw [if_neg hemulate] at hcount
      omega
    · obtain ⟨bytes', hbytes, hframes⟩ := hundone.inStep hipc
      change t.sent ++ bytes = s.sent ++ bytes' at hbytes
      rw [hsent, append_cancel_left_eq] at hbytes
      exact hbytes ▸ hframes
  · rintro ⟨hname, hframes⟩
    refine { h with
      reports := ?_
      inStep := fun _ => ⟨bytes, congrArg (· ++ bytes) hsent, hframes⟩ }
    rw [← h.reports]
    unfold accept
    dsimp only
    split_ifs with hemulate
    · rfl
    · rw [count_append, count_singleton, beq_eq_false_iff_ne.mpr fun habs =>
        hemulate (hname habs)]
      rfl

theorem frames_header_iff : Frames (frameOf bufs sendHandle c).headerBytes ↔
    ∀ buf ∈ bufs.head?, buf.1 = [] := by
  constructor
  · intro hframes buf hbuf
    by_contra hne
    exact not_frames_headerBytes hbuf hne hframes
  · intro hnil
    have hbytes : (frameOf bufs sendHandle c).bytes = [] := by
      cases hhead : bufs.head? with
      | none => simp [IpcFrame.bytes, frameOf, hhead]
      | some buf => simp [IpcFrame.bytes, frameOf, hhead, hnil buf hhead]
    have hframe := Frames.of_frame (frameOf bufs sendHandle c)
    rwa [hbytes, append_nil] at hframe

/-- The header fails and is undone, or it was accepted too late for that, or it is counted. -/
theorem writeHeader_cases (k : PipeKind) (s : PipeState ρ) (r : ρ) (bufs : List UvBuf)
    (sendHandle : Option SendHandle) (c : ImplCalls) (hipc : k.ipc = true) :
    (¬HeaderSent c ∧ (writeHeader k s r bufs sendHandle c).1 ≠ 0 ∧
      (Undone k s r (writeHeader k s r bufs sendHandle c).2 ↔ ¬HeaderLate k bufs c)) ∨
    (HeaderSent c ∧ (writeHeader k s r bufs sendHandle c).1 = 0 ∧
      (writeHeader k s r bufs sendHandle c).2.reqsPending = s.reqsPending + 1) := by
  have hsame := headerReq_undone (k := k) s r bufs
  unfold writeHeader HeaderSent
  cases hheader : c.header with
  | failed e =>
    refine .inl ⟨?_, e.2, iff_of_true hsame fun hlate => nomatch hheader.symm.trans hlate.1⟩
    rintro (⟨⟨⟩⟩ | ⟨⟨⟩, -⟩)
  | done => exact .inr ⟨.inl rfl, rfl, congrArg Nat.succ hsame.reqsPending⟩
  | pending =>
    cases hwait : c.headerWait with
    | none => exact .inr ⟨.inr ⟨rfl, rfl⟩, rfl, congrArg Nat.succ hsame.reqsPending⟩
    | some e =>
      refine .inl ⟨?_, e.2, ?_⟩
      · rintro (⟨⟨⟩⟩ | ⟨-, ⟨⟩⟩)
      · rw [hsame.accept_iff (headerReq_sent s r bufs) hipc, frames_header_iff, HeaderLate, hheader,
          hwait]
        cases bufs with
        | nil => simp [headerReq]
        | cons buf rest =>
          have hname : (headerReq s r (buf :: rest)).1 ≠ .user r := by
            rw [headerReq, if_neg (cons_ne_nil _ _)]
            split_ifs <;> nofun
          simp [hname]

/-! ### The whole function -/

/-- The calls after which a failure is not undone: the wait for a header, any call for the data behind
a header, and on other pipes a call behind a write of data that was accepted -/
def Late (k : PipeKind) (bufs : List UvBuf) (sendHandle : Option SendHandle) (c : ImplCalls) :
    Prop :=
  ¬(bufs.length ≠ 1 ∧ (bufs.length ≠ 0 ∨ sendHandle = none)) ∧
    ¬(sendHandle.any fun h => !h.tcp || !h.bound && !h.connection) ∧
    if k.ipc then
      k.nonOverlapped = false ∧ (sendHandle.bind fun _ => c.duplicate) = none ∧
        (HeaderLate k bufs c ∨ HeaderSent c ∧ bufs ≠ [] ∧ DataFails k c)
    else ∃ buf ∈ bufs.head?, DataLate k c buf

theorem DataLate.fails (h : DataLate k c buf) : DataFails k c := by
  obtain ⟨hoverlapped, hpending, hlate⟩ := h
  rw [DataFails, if_neg (by simp [hoverlapped])]
  split_ifs at hlate ⊢
  · exact .inr ⟨hpending, hlate.1⟩
  · exact .inr ⟨hlate.1, hlate.2.1⟩

theorem forall_some_iff {P : PipeState ρ → Prop} (p : ℤ × PipeState ρ) :
    (∀ err t, some p = some (err, t) → err ≠ 0 → P t) ↔ (p.1 ≠ 0 → P p.2) := by
  constructor
  · exact fun h => h p.1 p.2 rfl
  · rintro h _ _ ⟨⟩
    exact h

/-- A write that fails is undone exactly if no call fails too late. -/
theorem uvPipeWriteImpl_undone_iff (k : PipeKind) (s : PipeState ρ) (r : ρ) (bufs : List UvBuf)
    (sendHandle : Option SendHandle) (c : ImplCalls) :
    (∀ err t, PipeWriteErrors.uvPipeWriteImpl k s r bufs sendHandle c = some (err, t) → err ≠ 0 →
      Undone k s r t) ↔ ¬Late k bufs sendHandle c := by
  have hrefl : Undone k s r s :=
    ⟨rfl, rfl, rfl, rfl, rfl, rfl, rfl, fun _ => ⟨[], (List.append_nil _).symm, .nil⟩⟩
  unfold PipeWriteErrors.uvPipeWriteImpl
  split_ifs with hbufs hhandle hipc hnon
  · rw [forall_some_iff]
    exact iff_of_true (fun _ => hrefl) fun hlate => hlate.1 hbufs
  · rw [forall_some_iff]
    exact iff_of_true (fun _ => hrefl) fun hlate => hlate.2.1 hhandle
  · have hlate : Late k bufs sendHandle c ↔ ∃ buf ∈ bufs.head?, DataLate k c buf := by
      rw [Late, hipc, if_neg Bool.false_ne_true]
      exact ⟨fun h => h.2.2, fun h => ⟨hbufs, hhandle, h⟩⟩
    rw [hlate]
    cases hhead : bufs.head? with
    | none => exact iff_of_true nofun (by simp)
    | some buf =>
      simp only [Option.map_some, Option.mem_some_iff, exists_eq_left']
      rw [forall_some_iff]
      rcases writeData_cases k s r c buf with ⟨hfails, hzero⟩ | ⟨hfails, hne, hfailure⟩
      · exact iff_of_true (absurd hzero) (mt DataLate.fails hfails)
      · rw [← hfailure.undone_iff hipc]
        exact ⟨fun h => h hne, fun h _ => h⟩
  · refine iff_of_true nofun ?_
    rintro ⟨-, -, hlate⟩
    rw [if_pos (Bool.eq_true_of_not_eq_false hipc)] at hlate
    exact nomatch hnon.symm.trans hlate.1
  · have hipc : k.ipc = true := Bool.eq_true_of_not_eq_false hipc
    have hlate : Late k bufs sendHandle c ↔ (sendHandle.bind fun _ => c.duplicate) = none ∧
        (HeaderLate k bufs c ∨ HeaderSent c ∧ bufs ≠ [] ∧ DataFails k c) := by
      rw [Late, if_pos hipc]
      exact ⟨fun h => h.2.2.2, fun h => ⟨hbufs, hhandle, Bool.eq_false_of_not_eq_true hnon, h⟩⟩
    rw [hlate]
    cases sendHandle.bind fun _ => c.duplicate with
    | some e =>
      dsimp only
      rw [forall_some_iff]
      exact iff_of_true (fun _ => hrefl) (nofun ∘ And.left)
    | none =>
      dsimp only
      rcases writeHeader_cases k s r bufs sendHandle c hipc with
        ⟨hsent, hne, hundone⟩ | ⟨hsent, hzero, hpending⟩
      · rw [if_pos hne, forall_some_iff]
        have hor : (True ∧ (HeaderLate k bufs c ∨ HeaderSent c ∧ bufs ≠ [] ∧ DataFails k c)) ↔
            HeaderLate k bufs c :=
          ⟨fun h => h.2.resolve_right fun hright => hsent hright.1, fun h => ⟨trivial, .inl h⟩⟩
        rw [eq_self_iff_true, hor, ← hundone]
        exact ⟨fun h => h hne, fun h _ => h⟩
      · have hnot : ¬HeaderLate k bufs c := by
          rintro ⟨hheader, hwait, -⟩
          rcases hsent with hdone | hnone
          · exact nomatch hheader.symm.trans hdone
          · exact hwait hnone.2
        rw [if_neg (not_not.mpr hzero)]
        cases bufs with
        | nil =>
          refine iff_of_true ?_ ?_
          · rintro _ _ ⟨⟩ habs
            exact absurd rfl habs
          · rintro ⟨-, hlate | hlate⟩
            · exact hnot hlate
            · exact hlate.2.1 rfl
        | cons buf rest =>
          simp only [List.head?_cons]
          rw [forall_some_iff]
          have hcases := writeData_cases k (writeHeader k s r (buf :: rest) sendHandle c).2 r c buf
          rcases hcases with ⟨hfails, hdone⟩ | ⟨hfails, hne, hfailure⟩
          · refine iff_of_true (absurd hdone) ?_
            rintro ⟨-, hlate | hlate⟩
            · exact hnot hlate
            · exact hfails hlate.2.2
          · refine iff_of_false (fun h => ?_) fun h =>
              h ⟨trivial, .inr ⟨hsent, List.cons_ne_nil _ _, hfails⟩⟩
            have hcount := (h hne).reqsPending
            rw [hfailure.reqsPending, hpending] at hcount
            omega

end

/-- The calls of a write whose data is refused (`ERROR_NO_DATA`) behind its header -/
def refusedData : ImplCalls where
  socketInfoEx := IpcReader.zeroCalls.socketInfoEx
  padding := 0
  garbage := 0
  duplicate := none
  header := .done
  headerWait := none
  data := .failed ⟨232, by decide⟩
  dataWait := none
  registerWait := none

def idlePipe : PipeState ℕ := ⟨0, 0, 0, 0, [], [], [], [], false, 0⟩

theorem oneByte_lt : [1].length < 2 ^ 32 := by
  decide

def oneByte : UvBuf := ⟨[1], oneByte_lt⟩

/-- The header stays counted, and the peer expects a byte that does not come. -/
theorem not_uvPipeWriteImpl_undone : ∃ t : PipeState ℕ,
    PipeWriteErrors.uvPipeWriteImpl ⟨true, false, false, false⟩ idlePipe 0 [oneByte] none
      refusedData = some (232, t) ∧
    t.activeReqs = [.ipcHeader] ∧ t.reqsPending = 1 ∧ t.writeReqsPending = 1 ∧ t.activecnt = 1 ∧
    ¬Frames t.sent ∧ ¬Undone ⟨true, false, false, false⟩ idlePipe 0 t := by
  have hframes : ¬Frames (frameOf [oneByte] none refusedData).headerBytes :=
    not_frames_headerBytes rfl (List.cons_ne_nil 1 [])
  refine ⟨_, rfl, rfl, rfl, rfl, rfl, hframes, fun hundone => ?_⟩
  exact absurd hundone.reqsPending (Nat.succ_ne_zero 0)

end LibuvWorks.Win.PipeWriteErrors
