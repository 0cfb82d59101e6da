import Mathlib.Algebra.BigOperators.Group.List.Basic
import Mathlib.Data.BitVec

/-!
# The writes of a unix stream

`uv_write2` queues a request, `uv__write` hands the buffers of the first one to the kernel, and
`uv__write_callbacks` reports the requests that are done. The answers of the kernel are events.
-/
namespace LibuvWorks.Unix

/-- `uv_write_t`, with the number of the requests that were accepted before it. -/
structure WriteReq (α : Type*) where
  id : ℕ
  bufs : Option (List (List α))
  writeIndex : ℕ
  error : ℤ
  sendHandle : Option ℕ

/-- What has called `uv__write_callbacks`. -/
inductive Caller where
  | io : Caller
  | connect : Caller
  | destroy : Caller
  deriving DecidableEq

/-- The function of the stream that runs, and whose callbacks run. -/
inductive Frame where
  | loop : Frame
  | connect (error : ℤ) : Frame
  | callbacks (caller : Caller) : Frame
  deriving DecidableEq

/-- The part of `uv_stream_t` that is about writes. `connecting` says that `connect_req` is not
null, `writing` that `uv__write` waits for the kernel. The last five fields are the bytes and the
`send_handle` of the requests that were accepted, the bytes that the kernel took, the calls that
succeeded, with the descriptor that was passed, and the callbacks that have run. -/
structure Stream (α : Type*) where
  writeQueue : List (WriteReq α)
  writeCompletedQueue : List (WriteReq α)
  writeQueueSize : BitVec 64
  fd : ℤ
  ipc : Bool
  blocking : Bool
  connecting : Bool
  closing : Bool
  closed : Bool
  pollOut : Bool
  iovmax : ℕ
  handleFd : ℕ → ℤ
  writing : Bool
  frame : Frame
  accepted : List (List α)
  handles : List (Option ℕ)
  sent : List α
  calls : List (ℕ × Option ℤ)
  called : List (ℕ × ℤ)

def uvEbadf : ℤ := -9

def uvEcanceled : ℤ := -125

def uvEinprogress : ℤ := -115

def uvEinval : ℤ := -22

def uvEnomem : ℤ := -12

def eintr : ℕ := 4

def eagain : ℕ := 11

/-- An answer of `write`, `writev` or `sendmsg`. -/
inductive Answer where
  | wrote (n : ℕ) : Answer
  | fails (errno : ℕ) : Answer
  deriving DecidableEq

variable {α : Type*}

namespace WriteReq

def left (r : WriteReq α) : List (List α) := (r.bufs.getD []).drop r.writeIndex

def unwritten (r : WriteReq α) : ℕ := r.left.flatten.length

end WriteReq

/-- `uv__count_bufs`, with a `size_t`. -/
def uvCountBufs (bufs : List (List α)) : BitVec 64 :=
  (bufs.map fun buf => BitVec.ofNat 64 buf.length).sum

namespace Stream

variable (s : Stream α)

/-- `uv__write_req_size`; `none` is an assertion that fails. -/
def uvWriteReqSize (r : WriteReq α) : Option (BitVec 64) :=
  if r.bufs.isNone ∨ s.writeQueueSize < uvCountBufs r.left then none else some (uvCountBufs r.left)

/-- `uv__write_req_finish` of the first request. -/
def uvWriteReqFinish (r : WriteReq α) : Stream α :=
  { s with
    writeQueue := s.writeQueue.tail
    writeCompletedQueue :=
      s.writeCompletedQueue ++ [if r.error = 0 then { r with bufs := none } else r] }

/-- `uv__write`, until it asks the kernel. -/
def uvWrite : Option (Stream α) :=
  if s.fd < 0 then none
  else
    match s.writeQueue with
    | [] => some { s with writing := false }
    | r :: _ =>
      if (r.sendHandle.map s.handleFd).any (· < 0) then none else some { s with writing := true }

/-- The `while (n >= 0)` of `uv__write`, over the buffers from `write_index` on, and whether it
gets to the last one. -/
def writeLoop (r : WriteReq α) (size : BitVec 64) (n : ℕ) :
    List (List α) → Option (WriteReq α × BitVec 64 × Bool)
  | [] => none
  | buf :: bufs =>
    if n < buf.length then
      some ({ r with bufs := r.bufs.map fun bufs => bufs.set r.writeIndex (buf.drop n) },
        size - BitVec.ofNat 64 n, false)
    else if size < BitVec.ofNat 64 buf.length then none
    else
      let r := { r with writeIndex := r.writeIndex + 1 }
      let size := size - BitVec.ofNat 64 buf.length
      match bufs with
      | [] => if n - buf.length = 0 then some (r, size, true) else none
      | _ :: _ => writeLoop r size (n - buf.length) bufs

/-- `uv__write` when the kernel has answered. -/
def answered : Answer → Option (Stream α)
  | .fails errno =>
    if errno = 0 then none
    else if errno = eintr then some s
    else if errno ≠ eagain then
      s.writeQueue.head?.map fun r =>
        { s.uvWriteReqFinish { r with error := -errno } with pollOut := false, writing := false }
    else if s.blocking then s.uvWrite
    else some { s with pollOut := true, writing := false }
  | .wrote n => s.writeQueue.head?.bind fun r =>
    let iov := r.left.take s.iovmax
    if iov.flatten.length < n then none
    else
      (writeLoop r s.writeQueueSize n r.left).bind fun (r, size, finished) =>
        let s := { s with
          writeQueue := r :: s.writeQueue.tail
          writeQueueSize := size
          sent := s.sent ++ iov.flatten.take n
          -- `send_handle` is kept, and goes with every call of the request.
          calls := s.calls ++ [(r.id, r.sendHandle.map s.handleFd)] }
        if finished then some { s.uvWriteReqFinish r with writing := false }
        else if s.blocking then s.uvWrite
        else some { s with pollOut := true, writing := false }

/-- `uv_write2`; `allocated` says that `uv__malloc` gives the memory it is asked for. -/
def uvWrite2 (bufs : List (List α)) (sendHandle : Option ℕ) (allocated : Bool) :
    Option (Stream α × ℤ) :=
  if bufs = [] then none
  else if s.fd < 0 then some (s, uvEbadf)
  else if sendHandle.isSome ∧ !s.ipc then some (s, uvEinval)
  else if (sendHandle.map s.handleFd).any (· < 0) then some (s, uvEbadf)
  else if 4 < bufs.length ∧ !allocated then some (s, uvEnomem)
  else
    let emptyQueue := s.writeQueueSize = 0
    let s := { s with
      writeQueue := s.writeQueue ++ [⟨s.accepted.length, some bufs, 0, 0, sendHandle⟩]
      writeQueueSize := s.writeQueueSize + uvCountBufs bufs
      accepted := s.accepted ++ [bufs.flatten]
      handles := s.handles ++ [sendHandle] }
    if s.connecting then some (s, 0)
    else if emptyQueue then s.uvWrite.map fun s => (s, 0)
    else if s.blocking then none
    else some ({ s with pollOut := true }, 0)

def uvStreamFlushWriteQueue (error : ℤ) : Stream α :=
  { s with
    writeQueue := []
    writeCompletedQueue :=
      s.writeCompletedQueue ++ s.writeQueue.map fun r => { r with error := error } }

/-- A round of `uv__write_callbacks`: a request is removed and its callback runs. -/
def uvWriteCallback : Option (Stream α) :=
  match s.writeCompletedQueue with
  | [] => none
  | r :: rest =>
    let size := if r.bufs.isNone then some 0 else s.uvWriteReqSize r
    size.map fun size =>
      { s with
        writeCompletedQueue := rest
        writeQueueSize := s.writeQueueSize - size
        called := s.called ++ [(r.id, r.error)] }

/-- `uv__write_callbacks` returns. -/
def returned : Option (Stream α) :=
  match s.frame, s.writeCompletedQueue with
  | .callbacks .io, [] =>
    -- `uv__drain`
    some { s with frame := .loop, pollOut := if s.writeQueue.isEmpty then false else s.pollOut }
  | .callbacks .connect, [] => some { s with frame := .loop }
  | .callbacks .destroy, [] => if s.writeQueueSize ≠ 0 then none else some { s with frame := .loop }
  | _, _ => none

/-- `uv__stream_io`, for an event that is about writing. -/
def uvStreamIo : Option (Stream α) :=
  if s.frame ≠ .loop ∨ s.connecting ∨ s.fd < 0 then none
  else s.uvWrite.map fun s => { s with frame := .callbacks .io }

/-- `uv__stream_connect`, until it runs the callback. -/
def uvStreamConnect (error : ℤ) : Option (Stream α) :=
  if s.frame ≠ .loop ∨ !s.connecting ∨ 0 < error then none
  else if error = uvEinprogress then some s
  else
    some { s with
      connecting := false
      pollOut := if error < 0 ∨ s.writeQueue.isEmpty then false else s.pollOut
      frame := .connect error }

/-- The rest of `uv__stream_connect`. -/
def connectReturned : Option (Stream α) :=
  match s.frame with
  | .connect error =>
    if s.fd = -1 ∨ ¬ error < 0 then some { s with frame := .loop }
    else some { s.uvStreamFlushWriteQueue uvEcanceled with frame := .callbacks .connect }
  | _ => none

def uvStreamOpen (fd : ℤ) : Option (Stream α) :=
  if s.closing ∨ fd < 0 then none
  else if s.fd = -1 ∨ s.fd = fd then some { s with fd := fd }
  else some s

/-- `uv__tcp_connect` and `uv_pipe_connect`, on an open descriptor. -/
def uvConnect : Option (Stream α) :=
  if s.closing ∨ s.fd < 0 then none
  else if s.connecting then some s
  else some { s with connecting := true, pollOut := true }

def uvStreamClose : Option (Stream α) :=
  if s.closing then none else some { s with closing := true, fd := -1, pollOut := false }

/-- `uv__stream_destroy`, until it runs the callbacks. -/
def uvStreamDestroy : Option (Stream α) :=
  if s.frame ≠ .loop ∨ s.closed ∨ !s.closing then none
  else
    some { s.uvStreamFlushWriteQueue uvEcanceled with
      closed := true
      connecting := false
      frame := .callbacks .destroy }

end Stream

end LibuvWorks.Unix
