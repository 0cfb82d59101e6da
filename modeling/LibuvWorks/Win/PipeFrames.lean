import LibuvWorks.Lib.Blocks
import LibuvWorks.Win.PipeSockets

/-!
# Frames of a Windows ipc pipe

A write to an ipc pipe sends a header, with the info of a socket or without, and then the data. The
reader takes the frames apart between non-blocking reads. It expects data after every header: if
there is none, it reads the next header as data.
-/
namespace LibuvWorks.Win

open Transition List

/-! ### The format -/

def uvIpcRawData : BitVec 32 := 1
def uvIpcTcpServer : BitVec 32 := 2
def uvIpcTcpConnection : BitVec 32 := 4

/-- `sizeof(uv_ipc_frame_header_t)`: the flags, four bytes of padding and the length. -/
def sizeofIpcFrameHeader : ℕ := 16

/-- `sizeof(uv__ipc_socket_info_ex)`: a `WSAPROTOCOL_INFOW` and an `int`. -/
def sizeofSocketInfoEx : ℕ := 632

/-- `uv__ipc_socket_info_ex` -/
abbrev SocketInfoEx := { bytes : List UInt8 // bytes.length = sizeofSocketInfoEx }

/-- The bytes of a `uv_buf_t`, whose length is a `ULONG`. -/
abbrev UvBuf := { bytes : List UInt8 // bytes.length < 2 ^ 32 }

/-- `uv_ipc_frame_header_t` -/
structure IpcFrameHeader where
  flags : BitVec 32
  rawDataLength : BitVec 64

namespace IpcFrameHeader

def toBytes (header : IpcFrameHeader) (padding : BitVec 32) : List UInt8 :=
  LittleEndian.toBytes 4 header.flags.toNat ++ LittleEndian.toBytes 4 padding.toNat ++
    LittleEndian.toBytes 8 header.rawDataLength.toNat

def ofBytes (bytes : List UInt8) : IpcFrameHeader where
  flags := .ofNat 32 (LittleEndian.ofBytes (bytes.take 4))
  rawDataLength := .ofNat 64 (LittleEndian.ofBytes ((bytes.drop 8).take 8))

variable {header : IpcFrameHeader} {padding : BitVec 32}

@[simp] theorem length_toBytes : (header.toBytes padding).length = sizeofIpcFrameHeader := by
  simp [toBytes, sizeofIpcFrameHeader]

theorem ofBytes_toBytes : ofBytes (header.toBytes padding) = header := by
  have hflags : LittleEndian.ofBytes (LittleEndian.toBytes 4 header.flags.toNat) =
      header.flags.toNat := LittleEndian.ofBytes_toBytes header.flags.isLt
  have hlength : LittleEndian.ofBytes (LittleEndian.toBytes 8 header.rawDataLength.toNat) =
      header.rawDataLength.toNat := LittleEndian.ofBytes_toBytes header.rawDataLength.isLt
  have htake : (header.toBytes padding).take 4 = LittleEndian.toBytes 4 header.flags.toNat := by
    rw [toBytes, append_assoc, take_left' LittleEndian.length_toBytes]
  have hdrop : (header.toBytes padding).drop 8 =
      LittleEndian.toBytes 8 header.rawDataLength.toNat := by
    rw [toBytes, drop_left' (by simp)]
  rw [ofBytes, htake, hdrop, take_of_length_le (by simp), hflags, hlength,
    BitVec.ofNat_toNat, BitVec.ofNat_toNat]
  simp

end IpcFrameHeader

/-- A frame with its data. Padding, and the length if there is no data, are what was on the
stack. -/
structure IpcFrame where
  socket : Option (SocketInfoEx × Bool)
  data : Option UvBuf
  padding : BitVec 32
  garbage : BitVec 64

namespace IpcFrame

def flags (frame : IpcFrame) : BitVec 32 :=
  (if frame.socket.isSome then uvIpcTcpServer else 0) |||
    (if frame.socket.any (·.2) then uvIpcTcpConnection else 0) |||
    (if frame.data.isSome then uvIpcRawData else 0)

def header (frame : IpcFrame) : IpcFrameHeader where
  flags := frame.flags
  rawDataLength := match frame.data with
    | none => frame.garbage
    | some buf => .ofNat 64 buf.1.length

/-- What the first `WriteFile` writes. -/
def headerBytes (frame : IpcFrame) : List UInt8 :=
  frame.header.toBytes frame.padding ++ (frame.socket.map (·.1.1)).getD []

def bytes (frame : IpcFrame) : List UInt8 := (frame.data.map (·.1)).getD []

def units (frame : IpcFrame) : List (List UInt8) := frame.headerBytes :: frame.bytes.map ([·])

end IpcFrame

/-! ### The writer -/

/-- The handle that is sent: its type is `UV_TCP`, and its flags. -/
structure SendHandle where
  tcp : Bool
  bound : Bool
  connection : Bool

/-- What the calls of a write give: the duplicated socket with the delayed error, the results of
`uv_tcp_duplicate_socket` and of `WriteFile` for the header and for the data, and the stack. -/
structure WriteCalls where
  socketInfoEx : SocketInfoEx
  duplicate : ℕ
  header : ℕ
  data : ℕ
  padding : BitVec 32
  garbage : BitVec 64

def errorNotSupported : ℕ := 50

/-- The frame of a write. -/
def ipcFrame (bufs : List UvBuf) (sendHandle : Option SendHandle) (calls : WriteCalls) :
    IpcFrame where
  socket := sendHandle.map fun tcp => (calls.socketInfoEx, tcp.connection)
  data := bufs.head?
  padding := calls.padding
  garbage := calls.garbage

/-- `uv_pipe_write_impl` of an ipc pipe: what it writes, and its result. -/
def uvPipeWriteImpl (bufs : List UvBuf) (sendHandle : Option SendHandle) (calls : WriteCalls) :
    List (List UInt8) × ℕ :=
  let frame := ipcFrame bufs sendHandle calls
  if bufs.length ≠ 1 ∧ (bufs.length ≠ 0 ∨ sendHandle = none) then ([], errorNotSupported)
  else if sendHandle.any fun h => !h.tcp || !h.bound && !h.connection then ([], errorNotSupported)
  else if sendHandle.isSome ∧ calls.duplicate ≠ 0 then ([], calls.duplicate)
  else if calls.header ≠ 0 then ([], calls.header)
  else if bufs ≠ [] ∧ calls.data ≠ 0 then ([frame.headerBytes], calls.data)
  else (frame.units, 0)

/-! ### The reader -/

/-- Where the reader is: outside `uv_process_pipe_read_req`, at the head of its loop, in `alloc_cb`
that was told `avail`, or in `read_cb`. -/
inductive ReadPhase where
  | idle : ReadPhase
  | loop : ReadPhase
  | alloc (avail : ℕ) : ReadPhase
  | readCb : ReadPhase
  deriving DecidableEq

/-- The two ends of an ipc pipe: what was written but is not available yet, what is available, and
the reader. The last two fields record the frames of the writes that succeeded, and the data that
was passed to `read_cb`. -/
structure IpcReader (κ : Type*) where
  transit : List (List UInt8)
  pipe : List UInt8
  writerClosed : Bool
  reading : Bool
  readPending : Bool
  readable : Bool
  remainingIpcRawdataBytes : ℕ
  sockets : IpcPipe κ SocketInfoEx
  phase : ReadPhase
  writes : List IpcFrame
  delivered : List UInt8

namespace IpcReader

variable {κ : Type*} {s t : IpcReader κ}

/-- A read of the pipe fails with `ERROR_BROKEN_PIPE`. -/
def Broken (s : IpcReader κ) : Prop := s.writerClosed = true ∧ s.transit = [] ∧ s.pipe = []

instance (s : IpcReader κ) : Decidable s.Broken :=
  inferInstanceAs (Decidable (_ ∧ _ ∧ _))

/-- `ReadFile` of at most `n` bytes when some are available. -/
def readFile (s : IpcReader κ) (n : ℕ) : List UInt8 × IpcReader κ :=
  (s.pipe.take n, { s with pipe := s.pipe.drop n })

/-- `uv_pipe_read_eof`, up to the return of the callback. -/
def uvPipeReadEof (s : IpcReader κ) : IpcReader κ :=
  { s with readable := false, reading := false, phase := .readCb }

/-- `uv_pipe_read_error`, up to the return of the callback. -/
def uvPipeReadError (s : IpcReader κ) : IpcReader κ :=
  { s with reading := false, phase := .readCb }

def errorBrokenPipe : ℕ := 109

def uvPipeReadErrorOrEof (s : IpcReader κ) (err : ℕ) : IpcReader κ :=
  if err = errorBrokenPipe then s.uvPipeReadEof else s.uvPipeReadError

/-- The socket info that follows a header, if the flags say that there is one; none if an assertion
fails. -/
def readSocketInfo (s : IpcReader κ) (header : IpcFrameHeader) (avail : ℕ) :
    Option (IpcReader κ) :=
  if header.flags &&& uvIpcTcpServer ≠ 0 then
    if avail - sizeofIpcFrameHeader < sizeofSocketInfoEx then none
    else
      let (bytes, s) := s.readFile sizeofSocketInfoEx
      if h : bytes.length = sizeofSocketInfoEx then
        some { s with
          sockets := s.sockets.uvPipeInsertPendingSocket ⟨bytes, h⟩
            (header.flags &&& uvIpcTcpConnection ≠ 0) }
      else none
  else some s

/-- The begin of a frame; none if an assertion fails. -/
def readFrame (s : IpcReader κ) (avail : ℕ) : Option (IpcReader κ) :=
  if avail < sizeofIpcFrameHeader then none
  else
    let (bytes, s) := s.readFile sizeofIpcFrameHeader
    let header := IpcFrameHeader.ofBytes bytes
    if bytes.length ≠ sizeofIpcFrameHeader then none
    else if (uvIpcTcpServer ||| uvIpcRawData ||| uvIpcTcpConnection).toInt < header.flags.toInt then
      none
    else
      (s.readSocketInfo header avail).map fun s =>
        if header.flags &&& uvIpcRawData ≠ 0 then
          { s with remainingIpcRawdataBytes := header.rawDataLength.toNat, phase := .loop }
        -- `avail` still counts the header
        else { s with phase := .alloc avail }

/-- A round of the loop up to `alloc_cb`; none if an assertion fails. -/
def round (s : IpcReader κ) : Option (IpcReader κ) :=
  let avail := s.pipe.length
  if s.reading = false then some { s with phase := .idle }
  else if s.Broken then some s.uvPipeReadEof
  else if avail = 0 then some { s with readPending := true, phase := .idle }
  else if s.remainingIpcRawdataBytes = 0 then s.readFrame avail
  else some { s with phase := .alloc (min avail (s.remainingIpcRawdataBytes % 2 ^ 32)) }

/-- The rest of the round up to the return of `read_cb`, for a buffer of `len` bytes; none if an
assertion fails. -/
def readData (s : IpcReader κ) (avail len : ℕ) : Option (IpcReader κ) :=
  if len = 0 then some { s with phase := .readCb }
  else if s.Broken then some s.uvPipeReadEof
  else
    let (bytes, s) := s.readFile (min len avail)
    if s.remainingIpcRawdataBytes < bytes.length then none
    else
      some { s with
        remainingIpcRawdataBytes := s.remainingIpcRawdataBytes - bytes.length
        delivered := s.delivered ++ bytes
        phase := .readCb }

/-- `uv_read_start`; a 0-read may still be pending. -/
def uvReadStart (s : IpcReader κ) : IpcReader κ :=
  if s.reading = true ∨ s.readable = false then s
  else { s with reading := true, readPending := true }

/-- What happens to the two ends: a write, with what it writes arriving later, the end of the
writer, the completion of a 0-read, a round of the reader's loop, the return of `alloc_cb` and of
`read_cb`, and calls of the user. -/
inductive Event (κ : Type*) where
  | write (bufs : List UvBuf) (sendHandle : Option SendHandle) (calls : WriteCalls) : Event κ
  | arrive : Event κ
  | closeWriter : Event κ
  | process : Event κ
  | processError (err : ℕ) : Event κ
  | round : Event κ
  | buffer (len : ℕ) : Event κ
  | finish : Event κ
  | start : Event κ
  | stop : Event κ
  | accept (client : κ) (calls : ImportCalls) : Event κ

/-- The events that can happen. What is available fits a `DWORD`, and a read of an empty pipe
blocks. -/
def Enabled (s : IpcReader κ) : Event κ → Prop
  | .write _ _ _ => s.writerClosed = false
  | .arrive => ∃ unit ∈ s.transit.head?, s.pipe.length + unit.length < 2 ^ 32
  | .closeWriter => s.writerClosed = false
  | .process => s.phase = .idle ∧ s.readPending = true
  | .processError err =>
    s.phase = .idle ∧ s.readPending = true ∧ (err = errorBrokenPipe → s.Broken)
  | .round => s.phase = .loop
  | .buffer len => (∃ avail, s.phase = .alloc avail) ∧ (len = 0 ∨ s.pipe ≠ [] ∨ s.Broken)
  | .finish => s.phase = .readCb
  | .start => s.phase ≠ .loop
  | .stop => s.phase ≠ .loop
  | .accept _ _ => s.phase ≠ .loop

def next (s : IpcReader κ) : Event κ → Option (IpcReader κ)
  | .write bufs sendHandle calls =>
    let (units, err) := uvPipeWriteImpl bufs sendHandle calls
    let writes := if err = 0 then s.writes ++ [ipcFrame bufs sendHandle calls] else s.writes
    some { s with transit := s.transit ++ units, writes }
  | .arrive =>
    match s.transit with
    | [] => none
    | unit :: transit => some { s with transit, pipe := s.pipe ++ unit }
  | .closeWriter => some { s with writerClosed := true }
  | .process => some { s with readPending := false, phase := .loop }
  | .processError err =>
    let s := { s with readPending := false }
    if s.reading then some (s.uvPipeReadErrorOrEof err) else some s
  | .round => s.round
  | .buffer len =>
    match s.phase with
    | .alloc avail => s.readData avail len
    | _ => none
  | .finish =>
    some { s with readPending := s.readPending || s.reading, phase := .idle }
  | .start => some s.uvReadStart
  | .stop => some { s with reading := false }
  | .accept client calls => some { s with sockets := (s.sockets.uvPipeAccept client calls).1 }

instance (s : IpcReader κ) (e : Event κ) : Decidable (Enabled s e) := by
  cases e with
  | arrive =>
    cases h : s.transit with
    | nil => exact .isFalse fun ⟨_, hunit, _⟩ => by rw [h] at hunit; cases hunit
    | cons unit transit =>
      exact decidable_of_iff (s.pipe.length + unit.length < 2 ^ 32) (by simp [Enabled, h])
  | buffer len =>
    cases h : s.phase with
    | alloc avail =>
      exact decidable_of_iff (len = 0 ∨ s.pipe ≠ [] ∨ s.Broken) (by simp [Enabled, h])
    | _ => exact .isFalse fun ⟨⟨_, hphase⟩, _⟩ => by rw [h] at hphase; cases hphase
  | _ => unfold Enabled; infer_instance

def step (s : IpcReader κ) (e : Event κ) : Option (IpcReader κ) :=
  if Enabled s e then s.next e else none

def Step (s : IpcReader κ) (e : Event κ) (t : IpcReader κ) : Prop := s.step e = some t

structure Init (s : IpcReader κ) : Prop where
  transit : s.transit = []
  pipe : s.pipe = []
  writerClosed : s.writerClosed = false
  reading : s.reading = false
  remainingIpcRawdataBytes : s.remainingIpcRawdataBytes = 0
  received : s.sockets.received = []
  phase : s.phase = .idle
  writes : s.writes = []
  delivered : s.delivered = []

/-- After a header that no data follows `alloc_cb` gives no buffer, and no `WriteFile` of data fails
after the header is written. -/
def Careful (s : IpcReader κ) : Event κ → Prop
  | .write _ _ calls => calls.data = 0
  | .buffer len => s.remainingIpcRawdataBytes = 0 → len = 0
  | _ => True

instance (s : IpcReader κ) (e : Event κ) : Decidable (Careful s e) := by
  cases e <;> dsimp only [Careful] <;> infer_instance

end IpcReader

end LibuvWorks.Win
