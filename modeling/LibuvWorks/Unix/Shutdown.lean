import LibuvWorks.Unix.StreamWrites

/-!
# The shutdown of a unix stream

`uv_shutdown` leaves a request, and `uv__drain` calls `shutdown(2)` when the write queue has run
empty. A stream that is closed first cancels the request when it is destroyed.
-/
namespace LibuvWorks.Unix

open Transition

/-- A stream with the flags and the request of `uv_shutdown`. `fed` says that the watcher is in
`pending_queue`, `connectSeen` that a connect was in progress since the last request. The requests
have numbers; `shutdowns` and `called` are the calls of `shutdown(2)` and of the callbacks. -/
structure ShutdownStream (α : Type*) where
  stream : Stream α
  writable : Bool
  shutting : Bool
  shut : Bool
  shutdownReq : Option ℕ
  fed : Bool
  activeReqs : List ℕ
  requests : ℕ
  connectSeen : Bool
  shutdowns : List (ℕ × ℤ)
  called : List (ℕ × ℤ)

def uvEnotconn : ℤ := -107

namespace ShutdownStream

variable {α : Type*} (s : ShutdownStream α)

/-- `uv_shutdown`; `none` is an assertion that fails. -/
def uvShutdown : Option (ShutdownStream α × ℤ) :=
  if !s.writable ∨ s.shut ∨ s.shutting ∨ s.stream.closed ∨ s.stream.closing then
    some (s, uvEnotconn)
  else if s.stream.fd < 0 then none
  else
    some ({ s with
      activeReqs := s.activeReqs ++ [s.requests]
      shutdownReq := some s.requests
      requests := s.requests + 1
      shutting := true
      connectSeen := s.stream.connecting
      stream := { s.stream with pollOut := true } }, 0)

/-- `uv__drain` after it has stopped `POLLOUT`. -/
def uvDrain (errno : ℕ) : Option (ShutdownStream α) :=
  if s.shutting ∧ !s.stream.closing ∧ !s.shut then
    s.shutdownReq.map fun req =>
      { s with
        shutdownReq := none
        shutting := false
        activeReqs := s.activeReqs.erase req
        shut := errno = 0
        shutdowns := s.shutdowns ++ [(req, -(errno : ℤ))]
        called := s.called ++ [(req, -(errno : ℤ))] }
  else some s

/-- The end of `uv__stream_destroy`. -/
def cancelled : ShutdownStream α :=
  match s.shutdownReq with
  | none => s
  | some req =>
    { s with
      shutdownReq := none
      activeReqs := s.activeReqs.erase req
      called := s.called ++ [(req, uvEcanceled)] }

/-- `uv__write_callbacks` returns to its caller; `errno` is the answer of `shutdown(2)`. -/
def returned (errno : ℕ) : Option (ShutdownStream α) :=
  (s.stream.step .returned).bind fun stream =>
    let t := { s with stream }
    match s.stream.frame with
    | .callbacks .io => if stream.writeQueue.isEmpty then t.uvDrain errno else some t
    | .callbacks .destroy => some t.cancelled
    | _ => some t

/-- `uv__write_req_finish` feeds the watcher, and `uv__io_close` takes it off. -/
def fedAfter (e : Stream.Event α) (stream : Stream α) : Bool :=
  match e with
  | .answer _ =>
    s.fed || s.stream.writeCompletedQueue.length < stream.writeCompletedQueue.length
  | .close => false
  | _ => s.fed

/-- An event of the stream that `uv_shutdown` is not part of. -/
def run (e : Stream.Event α) : Option (ShutdownStream α) :=
  match e with
  | .returned => none
  | .streamOpen _ => none
  | e => (s.stream.step e).map fun stream =>
    { s with
      stream
      fed := s.fedAfter e stream
      connectSeen := s.connectSeen || stream.connecting }

/-- An event of the stream, which may be the run of a watcher that was fed. -/
inductive Event (α : Type*) where
  | stream (e : Stream.Event α) : Event α
  | pending (e : Stream.Event α) : Event α
  | streamOpen (fd : ℤ) (writable : Bool) : Event α
  | returned (errno : ℕ) : Event α
  | shutdown : Event α

def isIo : Stream.Event α → Bool
  | .io => true
  | .connected _ => true
  | _ => false

def next : Event α → Option (ShutdownStream α)
  | .stream e => s.run e
  | .pending e => if s.fed ∧ isIo e then { s with fed := false }.run e else none
  | .streamOpen fd writable => (s.stream.step (.streamOpen fd)).map fun stream =>
    { s with stream, writable := s.writable || writable && stream.fd = fd }
  | .returned errno => s.returned errno
  | .shutdown => if s.stream.writing then none else s.uvShutdown.map Prod.fst

def Step (e : Event α) (t : ShutdownStream α) : Prop := s.next e = some t

/-- A stream to which nothing has been written, and that is not shut down. -/
structure Init (s : ShutdownStream α) : Prop where
  stream : Stream.Init s.stream
  shutting : s.shutting = false
  shut : s.shut = false
  shutdownReq : s.shutdownReq = none
  activeReqs : s.activeReqs = []
  requests : s.requests = 0
  shutdowns : s.shutdowns = []
  called : s.called = []

end ShutdownStream

end LibuvWorks.Unix
