import LibuvWorks.Lib.Custody
import LibuvWorks.Win.PipeServer
import Mathlib.Algebra.GroupWithZero.Nat

/-!
# The handles of a Windows pipe

A `uv_pipe_t` gets handles of the system from `uv_pipe_connect`, from the thread that waits for a
busy pipe, from `uv_pipe_bind`, from its accept requests, or from the server that accepts it. What
closes them depends on flags that other steps set.
-/
namespace LibuvWorks.Win

/-- The result of `uv_set_pipe_handle` for a handle, as far as the system decides it, and the flags
for `UV_HANDLE_READABLE` and `UV_HANDLE_WRITABLE`. -/
structure OpenCall where
  associated : Bool
  readable : Bool
  writable : Bool

/-- What `uv_pipe_connect` gets: an error, a busy pipe, or a handle. -/
inductive ConnectCall where
  | fails : ConnectCall
  | busy : ConnectCall
  | opens (call : OpenCall) : ConnectCall

/-- What `uv_pipe_bind` gets. -/
inductive BindCall where
  | fails : BindCall
  | creates (associated : Bool) : BindCall

/-- What `uv_pipe_queue_accept` gets for an instance. -/
structure InstanceCalls where
  created : Bool
  associated : Bool
  connect : ConnectResult

/-- Where `pipe_connect_thread_proc` is: before `WaitNamedPipeW`, before `open_named_pipe`, or
before `uv_set_pipe_handle`. -/
inductive ConnectThread where
  | waits : ConnectThread
  | available : ConnectThread
  | opened (handle : ℕ) : ConnectThread
  deriving DecidableEq

def ConnectThread.handle : ConnectThread → Option ℕ
  | .opened handle => some handle
  | _ => none

/-- `uv_pipe_t` with `n + 1` instances. The threads and the posted connect requests have a flag that
says whether `cb` is not null, `kernel`, `queued` and `pendingAccepts` are the accept requests that
the kernel, the loop and the user have, and `shutdowns` counts the shutdown requests that are
flushed or posted. `opened`, `closes` and `given` record the handles that were opened, closed, and
left to clients, and `misused` that the thread has read `name` after it was freed. -/
structure PipeHandle (n : ℕ) where
  handle : Option ℕ
  name : Bool
  acceptReqs : Fin (n + 1) → Option ℕ
  connection : Bool
  pipeserver : Bool
  bound : Bool
  listening : Bool
  readable : Bool
  writable : Bool
  closing : Bool
  closed : Bool
  endgameQueued : Bool
  reqsPending : ℕ
  shutdownReq : Bool
  shutdowns : ℕ
  eofTimer : Bool
  threads : List (ConnectThread × Bool)
  connects : List (Bool × Bool)
  kernel : List (Fin (n + 1))
  queued : List (Fin (n + 1) × Bool)
  pendingAccepts : List (Fin (n + 1))
  callback : Bool
  opened : ℕ
  closes : List ℕ
  given : List ℕ
  misused : Bool

namespace PipeHandle

variable {n : ℕ}

local instance (priority := 2000) : NeZero (n + 1) := ⟨n.succ_ne_zero⟩

/-! ### Handles -/

def closeHandle (s : PipeHandle n) (h : ℕ) : PipeHandle n := { s with closes := h :: s.closes }

/-- `close_pipe`; it does nothing to `INVALID_HANDLE_VALUE`. -/
def closePipe (s : PipeHandle n) : PipeHandle n :=
  { s with closes := s.handle.toList ++ s.closes, handle := none }

/-- `uv_set_pipe_handle`; `none` is an error. -/
def uvSetPipeHandle (s : PipeHandle n) (h : ℕ) (call : OpenCall) : Option (PipeHandle n) :=
  if s.pipeserver = false ∧ s.handle ≠ none then none
  else if call.associated then
    some { s with
      handle := some h
      readable := s.readable || call.readable
      writable := s.writable || call.writable }
  else none

def uvPipeConnectionInit (s : PipeHandle n) : PipeHandle n :=
  { s with connection := true, shutdownReq := false, eofTimer := false }

/-- `DECREASE_PENDING_REQ_COUNT`; `none` if the assertion fails. -/
def decreasePendingReqCount (s : PipeHandle n) : Option (PipeHandle n) :=
  if s.reqsPending = 0 then none
  else
    let s := { s with reqsPending := s.reqsPending - 1 }
    some { s with endgameQueued := s.endgameQueued || (s.closing && s.reqsPending = 0) }

/-! ### Connecting -/

def postConnect (s : PipeHandle n) (success cb : Bool) : PipeHandle n :=
  { s with connects := s.connects ++ [(success, cb)] }

def uvPipeConnect (s : PipeHandle n) (cb : Bool) (call : ConnectCall) : PipeHandle n :=
  let s := { s with name := true, reqsPending := s.reqsPending + 1 }
  match call with
  | .fails => { s with name := false }.postConnect false cb
  | .busy => { s with threads := (.waits, cb) :: s.threads }
  | .opens call =>
    let h := s.opened
    let s := { s with opened := s.opened + 1 }
    match s.uvSetPipeHandle h call with
    | some s => s.postConnect true cb
    | none => { s.closeHandle h with name := false }.postConnect false cb

/-- `pipe_connect_thread_proc` reads `handle->name`. -/
def readName (s : PipeHandle n) : PipeHandle n := { s with misused := s.misused || !s.name }

/-- `WaitNamedPipeW` in the thread. -/
def threadWaits (s : PipeHandle n) (cb available : Bool) : PipeHandle n :=
  let s := { s.readName with threads := s.threads.erase (.waits, cb) }
  if available then { s with threads := (.available, cb) :: s.threads } else s.postConnect false cb

/-- `open_named_pipe` in the thread. -/
def threadOpens (s : PipeHandle n) (cb opens : Bool) : PipeHandle n :=
  let s := { s.readName with threads := s.threads.erase (.available, cb) }
  if opens then { s with threads := (.opened s.opened, cb) :: s.threads, opened := s.opened + 1 }
  else { s with threads := (.waits, cb) :: s.threads }

/-- `uv_set_pipe_handle` in the thread; nothing is closed if it fails. -/
def threadSets (s : PipeHandle n) (cb : Bool) (h : ℕ) (call : OpenCall) : PipeHandle n :=
  let s := { s with threads := s.threads.erase (.opened h, cb) }
  match s.uvSetPipeHandle h call with
  | some s => s.postConnect true cb
  | none => s.postConnect false cb

/-- `uv_process_pipe_connect_req` up to the callback; `none` is an assertion that fails. -/
def uvProcessPipeConnectReq (s : PipeHandle n) (success cb : Bool) : Option (PipeHandle n) :=
  let s := { s with connects := s.connects.erase (success, cb) }
  if cb then
    if success then
      if s.pipeserver then none else some { s.uvPipeConnectionInit with callback := true }
    else some { s with callback := true }
  else s.decreasePendingReqCount

/-! ### Serving -/

def uvPipeBind (s : PipeHandle n) (call : BindCall) : PipeHandle n :=
  if s.bound then s
  else
    let s := { s with acceptReqs := fun _ => none, name := true }
    match call with
    | .fails => { s with name := false }
    | .creates associated =>
      let h := s.opened
      let s := { s with opened := s.opened + 1 }
      match s.uvSetPipeHandle h ⟨associated, false, false⟩ with
      | some s =>
        { s with
          acceptReqs := Function.update s.acceptReqs 0 (some h)
          pendingAccepts := [], pipeserver := true, bound := true }
      | none => { s.closeHandle h with name := false }

/-- `uv_insert_pending_req` with the status of the request. -/
def uvInsertPendingReq (s : PipeHandle n) (i : Fin (n + 1)) (success : Bool) : PipeHandle n :=
  { s with queued := s.queued ++ [(i, success)], reqsPending := s.reqsPending + 1 }

/-- `CloseHandle` of the handle of a request that has one. -/
def closeReq (s : PipeHandle n) (i : Fin (n + 1)) : PipeHandle n :=
  { s with
    closes := (s.acceptReqs i).toList ++ s.closes
    acceptReqs := Function.update s.acceptReqs i none }

/-- The end of `uv_pipe_queue_accept`, from `ConnectNamedPipe` on. -/
def connectNamedPipe (s : PipeHandle n) (i : Fin (n + 1)) (result : ConnectResult) : PipeHandle n :=
  match result with
  | .pending => { s with kernel := s.kernel ++ [i], reqsPending := s.reqsPending + 1 }
  | .connected => s.uvInsertPendingReq i true
  | .fails => (s.closeReq i).uvInsertPendingReq i false

/-- `uv_pipe_queue_accept`; `none` is an assertion that fails. -/
def uvPipeQueueAccept (s : PipeHandle n) (i : Fin (n + 1)) (firstInstance : Bool)
    (calls : InstanceCalls) : Option (PipeHandle n) :=
  if s.listening = false then none
  else if firstInstance then
    if s.acceptReqs i = none then none else some (s.connectNamedPipe i calls.connect)
  else if s.acceptReqs i ≠ none then none
  else if calls.created = false then some (s.uvInsertPendingReq i false)
  else
    let h := s.opened
    let s := { s with
      opened := s.opened + 1, acceptReqs := Function.update s.acceptReqs i (some h) }
    match s.uvSetPipeHandle h ⟨calls.associated, false, false⟩ with
    | none => some ((s.closeReq i).uvInsertPendingReq i false)
    | some s => some (s.connectNamedPipe i calls.connect)

def uvPipeListen (s : PipeHandle n) (calls : Fin (n + 1) → InstanceCalls) : Option (PipeHandle n) :=
  if s.bound = false then some s
  else
    let s := { s with listening := true }
    if s.acceptReqs 0 = none then none
    else (List.finRange (n + 1)).foldlM (fun s i => s.uvPipeQueueAccept i (i = 0) (calls i)) s

/-- `uv_pipe_accept` of the server. -/
def uvPipeAccept (s : PipeHandle n) (calls : InstanceCalls) : Option (PipeHandle n) :=
  match s.pendingAccepts with
  | [] => some s
  | i :: rest =>
    let s := { s with
      given := (s.acceptReqs i).toList ++ s.given
      acceptReqs := Function.update s.acceptReqs i none
      pendingAccepts := rest }
    if s.closing then some s else s.uvPipeQueueAccept i false calls

/-- `uv_pipe_accept` of another server, with this pipe as the client. -/
def uvPipeAccepted (s : PipeHandle n) : Option (PipeHandle n) :=
  if s.pipeserver then none
  else
    some { s.uvPipeConnectionInit with
      handle := some s.opened, opened := s.opened + 1, readable := true, writable := true }

/-- `uv_process_pipe_accept_req`, until the callback if it is called. -/
def uvProcessPipeAcceptReq (s : PipeHandle n) (i : Fin (n + 1)) (success : Bool)
    (calls : InstanceCalls) : Option (PipeHandle n) :=
  let s := { s with queued := s.queued.erase (i, success) }
  if s.closing then if s.acceptReqs i ≠ none then none else s.decreasePendingReqCount
  else if success then
    if s.acceptReqs i = none then none
    else some { s with pendingAccepts := i :: s.pendingAccepts, callback := true }
  else ((s.closeReq i).uvPipeQueueAccept i false calls).bind decreasePendingReqCount

/-! ### Shutting down and closing -/

def uvShutdown (s : PipeHandle n) : PipeHandle n :=
  if s.writable = false then s
  else
    { s with
      writable := false, shutdownReq := true, reqsPending := s.reqsPending + 1, endgameQueued := true }

/-- `uv_process_pipe_shutdown_req` up to the callback. -/
def uvProcessPipeShutdownReq (s : PipeHandle n) : Option (PipeHandle n) :=
  let s := { s with shutdowns := s.shutdowns - 1, callback := true }
  if s.readable then
    if s.eofTimer ∨ s.connection = false then none else some { s with eofTimer := true }
  else some s.closePipe

/-- `uv_pipe_read_eof`, which the timer calls too. -/
def uvPipeReadEof (s : PipeHandle n) : PipeHandle n :=
  { s with eofTimer := false, readable := false }

def uvPipeCleanup (s : PipeHandle n) : PipeHandle n :=
  let s := { s with name := false }
  let s :=
    if s.pipeserver then
      { s with
        closes := Custody.slots s.acceptReqs ++ s.closes
        acceptReqs := fun _ => none, handle := none }
    else s
  if s.connection then { s with writable := false, eofTimer := false }.closePipe else s

def uvPipeClose (s : PipeHandle n) : PipeHandle n :=
  let s := { s with listening := false }.uvPipeCleanup
  { s with
    endgameQueued := s.endgameQueued || s.reqsPending = 0
    readable := false, writable := false, closing := true }

/-- `uv_pipe_endgame`; `flushed` says that the pipe could be flushed, and `none` is an assertion
that fails. -/
def uvPipeEndgame (s : PipeHandle n) (flushed : Bool) : Option (PipeHandle n) :=
  let s := { s with endgameQueued := false }
  if s.connection ∧ s.shutdownReq then
    let s := { s with shutdownReq := false }
    if s.closing then some { s with callback := true }
    else if flushed then some { s with shutdowns := s.shutdowns + 1 }
    else some { s with writable := true, callback := true }
  else if s.closing ∧ s.reqsPending = 0 then
    if s.closed then none else some { s with closed := true }
  else some s

/-! ### Events -/

/-- The user calls, the connect thread or the kernel goes on, the loop processes a request or an
endgame, a read or the timer ends the stream, or a callback returns; one that is null returns at
once. -/
inductive Event (n : ℕ) where
  | connect (cb : Bool) (call : ConnectCall) : Event n
  | bind (call : BindCall) : Event n
  | listen (calls : Fin (n + 1) → InstanceCalls) : Event n
  | accept (calls : InstanceCalls) : Event n
  | accepted : Event n
  | shutdown : Event n
  | close : Event n
  | threadWaits (cb available : Bool) : Event n
  | threadOpens (cb opens : Bool) : Event n
  | threadSets (cb : Bool) (h : ℕ) (call : OpenCall) : Event n
  | completed (i : Fin (n + 1)) (success : Bool) : Event n
  | processConnect (success cb : Bool) : Event n
  | processAccept (i : Fin (n + 1)) (success : Bool) (calls : InstanceCalls) : Event n
  | processShutdown : Event n
  | endgame (flushed : Bool) : Event n
  | eofTimer : Event n
  | readEof : Event n
  | returned : Event n

/-- The events that can happen; the loop runs no callback in another. -/
def Enabled (s : PipeHandle n) : Event n → Prop
  | .connect _ _ => s.closing = false
  | .bind _ => s.closing = false
  | .listen _ => s.closing = false
  | .accept _ => s.closed = false
  | .accepted => s.closing = false
  | .shutdown => s.closing = false
  | .close => s.closing = false
  | .threadWaits cb _ => (.waits, cb) ∈ s.threads
  | .threadOpens cb _ => (.available, cb) ∈ s.threads
  | .threadSets cb h _ => (.opened h, cb) ∈ s.threads
  | .completed i _ => i ∈ s.kernel
  | .processConnect success cb => (success, cb) ∈ s.connects ∧ s.callback = false
  | .processAccept i success _ => (i, success) ∈ s.queued ∧ s.callback = false
  | .processShutdown => 0 < s.shutdowns ∧ s.callback = false
  | .endgame _ => s.endgameQueued = true ∧ s.callback = false
  | .eofTimer => s.eofTimer = true ∧ s.callback = false
  | .readEof => s.connection = true ∧ s.readable = true ∧ s.closing = false ∧ s.callback = false
  | .returned => s.callback = true

instance (s : PipeHandle n) (e : Event n) : Decidable (s.Enabled e) := by
  cases e <;> unfold Enabled <;> infer_instance

def next (s : PipeHandle n) : Event n → Option (PipeHandle n)
  | .connect cb call => some (s.uvPipeConnect cb call)
  | .bind call => some (s.uvPipeBind call)
  | .listen calls => s.uvPipeListen calls
  | .accept calls => s.uvPipeAccept calls
  | .accepted => s.uvPipeAccepted
  | .shutdown => some s.uvShutdown
  | .close => some s.uvPipeClose
  | .threadWaits cb available => some (s.threadWaits cb available)
  | .threadOpens cb opens => some (s.threadOpens cb opens)
  | .threadSets cb h call => some (s.threadSets cb h call)
  | .completed i success =>
    some { s with kernel := s.kernel.erase i, queued := s.queued ++ [(i, success)] }
  | .processConnect success cb => s.uvProcessPipeConnectReq success cb
  | .processAccept i success calls => s.uvProcessPipeAcceptReq i success calls
  | .processShutdown => s.uvProcessPipeShutdownReq
  | .endgame flushed => s.uvPipeEndgame flushed
  | .eofTimer => some s.closePipe.uvPipeReadEof
  | .readEof => some s.uvPipeReadEof
  | .returned => { s with callback := false }.decreasePendingReqCount

def step (s : PipeHandle n) (e : Event n) : Option (PipeHandle n) :=
  if s.Enabled e then s.next e else none

def Step (s : PipeHandle n) (e : Event n) (t : PipeHandle n) : Prop := s.step e = some t

def uvPipeInit (n : ℕ) : PipeHandle n where
  handle := none
  name := false
  acceptReqs := fun _ => none
  connection := false
  pipeserver := false
  bound := false
  listening := false
  readable := false
  writable := false
  closing := false
  closed := false
  endgameQueued := false
  reqsPending := 0
  shutdownReq := false
  shutdowns := 0
  eofTimer := false
  threads := []
  connects := []
  kernel := []
  queued := []
  pendingAccepts := []
  callback := false
  opened := 0
  closes := []
  given := []
  misused := false

end PipeHandle

end LibuvWorks.Win
