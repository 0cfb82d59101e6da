import LibuvWorks.Lib.Ring
import LibuvWorks.Lib.Transition
import LibuvWorks.Handle

/-!
# Child processes of a unix loop: `uv__chld` of `unix/process.c`

`uv__chld` moves the handles whose process has exited from `process_handles` to a local
queue, and then takes them from that queue one by one and calls their exit callbacks. Both
walks fetch the next node before they handle the current one, so the queues are modelled with
their links.
-/
namespace LibuvWorks.Unix

/-- A `QUEUE`: one of the two heads, or the node of a handle. -/
inductive ProcNode (ι : Type*) where
  | handles : ProcNode ι
  | pending : ProcNode ι
  | proc : ι → ProcNode ι
  deriving DecidableEq

/-- `uv_process_t`. `live` says that the handle is in `handle_queue`; the other fields from
`started` on record what has happened to it since `uv_spawn`: the process was started, `uv__chld`
has reaped it with a wait status, its turn has come, and the calls of its exit callback. -/
structure UvProcess (γ : Type*) where
  pid : ℕ
  status : ℕ
  exitCb : Option γ
  active : Bool
  closing : Bool
  live : Bool
  started : Bool
  reaped : Option ℕ
  turned : Bool
  calls : List (ℕ × ℕ)

inductive Child where
  | gone : Child
  | running : Child
  | zombie (status : ℕ) : Child
  deriving DecidableEq

/-- Where the thread of the loop is: the nodes are the local variable `q`, and at
`callback` the exit callback of a handle runs. -/
inductive ChldThread (ι : Type*) where
  | user : ChldThread ι
  | reap (q : ProcNode ι) : ChldThread ι
  | deliver (q : ProcNode ι) : ChldThread ι
  | callback (h : ι) (q : ProcNode ι) : ChldThread ι
  deriving DecidableEq

structure Processes (ι γ : Type*) where
  links : RingLinks (ProcNode ι)
  proc : ι → UvProcess γ
  child : ℕ → Child
  thread : ChldThread ι

/-! ### The macros of `sys/wait.h` -/

def wTermSig (status : ℕ) : ℕ := status % 128

def wExitStatus (status : ℕ) : ℕ := status / 256 % 256

def wIfExited (status : ℕ) : Bool := wTermSig status = 0

def wIfSignaled (status : ℕ) : Bool := 0 < wTermSig status && wTermSig status < 127

def exitArgs (status : ℕ) : ℕ × ℕ :=
  (if wIfExited status then wExitStatus status else 0,
    if wIfSignaled status then wTermSig status else 0)

/-- What `uv_spawn` comes to. -/
inductive Spawned where
  /-- An error before the child is known, or after it when a stream cannot be opened. -/
  | failed : Spawned
  /-- The child has exited, since `execvp` failed. -/
  | execFailed (pid : ℕ) : Spawned
  | started (pid : ℕ) : Spawned

namespace Processes

variable {ι γ : Type*} [DecidableEq ι] (s : Processes ι γ)

def setProc (h : ι) (v : UvProcess γ) : Processes ι γ :=
  { s with proc := Function.update s.proc h v }

@[simp] theorem setProc_proc (h : ι) (v : UvProcess γ) :
    (s.setProc h v).proc = Function.update s.proc h v := rfl

@[simp] theorem setProc_links (h : ι) (v : UvProcess γ) : (s.setProc h v).links = s.links := rfl

@[simp] theorem setProc_thread (h : ι) (v : UvProcess γ) : (s.setProc h v).thread = s.thread := rfl

@[simp] theorem setProc_child (h : ι) (v : UvProcess γ) : (s.setProc h v).child = s.child := rfl

/-- The code of the program runs: outside of `uv__chld`, or in an exit callback. -/
def mayCall : Bool :=
  match s.thread with
  | .user => true
  | .callback _ _ => true
  | _ => false

/-- A handle that `uv__handle_init` has initialised. -/
def freshProc (exitCb : Option γ) : UvProcess γ where
  pid := 0
  status := 0
  exitCb := exitCb
  active := false
  closing := false
  live := true
  started := false
  reaped := none
  turned := false
  calls := []

/-- `uv_spawn`; the kernel gives a number that no child has. -/
def uvSpawn (h : ι) (exitCb : Option γ) (r : Spawned) : Option (Processes ι γ) :=
  if !s.mayCall ∨ (s.proc h).live then none
  else
    let s := { s with links := s.links.init (.proc h) }
    match r with
    | .failed => some (s.setProc h (freshProc none))
    | .execFailed pid => some (s.setProc h { freshProc exitCb with pid := pid })
    | .started pid =>
      if s.child pid = .gone then
        some { s.setProc h { freshProc exitCb with pid := pid, active := true, started := true } with
          links := s.links.insertTail .handles (.proc h)
          child := Function.update s.child pid .running }
      else none

/-- `uv_close` of a process handle: the flag, and `uv__process_close`. -/
def uvClose (h : ι) : Option (Processes ι γ) :=
  if !s.mayCall ∨ !(s.proc h).live ∨ (s.proc h).closing then none
  else some { s.setProc h { s.proc h with closing := true, active := false } with
    links := s.links.remove (.proc h) }

/-- The close callback has run: the memory of the handle may be used again. -/
def uvFinishClose (h : ι) : Option (Processes ι γ) :=
  if s.thread = .user ∧ (s.proc h).live ∧ (s.proc h).closing then
    some (s.setProc h { s.proc h with live := false })
  else none

/-- A child exits. -/
def childExits (pid status : ℕ) : Option (Processes ι γ) :=
  if s.child pid = .running then
    some { s with child := Function.update s.child pid (.zombie status) }
  else none

/-! ### `uv__chld` -/

/-- `SIGCHLD` is dispatched: the local queue is initialised and the first walk begins. -/
def uvChld : Option (Processes ι γ) :=
  if s.thread = .user then
    some { s with
      links := s.links.init .pending
      thread := .reap (s.links.next .handles) }
  else none

/-- One round of the first walk; `waitpid` with `WNOHANG` finds that the child has exited,
that it has not, or that there is none. -/
def reapStep : Option (Processes ι γ) :=
  match s.thread with
  | .reap .handles => some { s with thread := .deliver (s.links.next .pending) }
  | .reap (.proc h) =>
    let q := s.links.next (.proc h)
    match s.child (s.proc h).pid with
    | .zombie status =>
      some { s.setProc h { s.proc h with status := status, reaped := some status } with
        links := (s.links.remove (.proc h)).insertTail .pending (.proc h)
        child := Function.update s.child (s.proc h).pid .gone
        thread := .reap q }
    | _ => some { s with thread := .reap q }
  | _ => none

/-- One round of the second walk, up to the exit callback. -/
def deliverStep : Option (Processes ι γ) :=
  match s.thread with
  | .deliver .pending =>
    if s.links.next .pending = .pending then some { s with thread := .user } else none
  | .deliver (.proc h) =>
    let q := s.links.next (.proc h)
    let s := { s with links := (s.links.remove (.proc h)).init (.proc h) }
    let p := { s.proc h with active := false, turned := true }
    match p.exitCb with
    | none => some { s.setProc h p with thread := .deliver q }
    | some _ =>
      some { s.setProc h { p with calls := p.calls ++ [exitArgs p.status] } with
        thread := .callback h q }
  | _ => none

/-- The exit callback returns. -/
def callbackReturned : Option (Processes ι γ) :=
  match s.thread with
  | .callback _ q => some { s with thread := .deliver q }
  | _ => none

/-! ### Runs -/

inductive Event (ι γ : Type*) where
  | spawn : ι → Option γ → Spawned → Event ι γ
  | close : ι → Event ι γ
  | finishClose : ι → Event ι γ
  | exits : ℕ → ℕ → Event ι γ
  | sigchld : Event ι γ
  | reap : Event ι γ
  | deliver : Event ι γ
  | returned : Event ι γ

def step : Event ι γ → Option (Processes ι γ)
  | .spawn h exitCb r => s.uvSpawn h exitCb r
  | .close h => s.uvClose h
  | .finishClose h => s.uvFinishClose h
  | .exits pid status => s.childExits pid status
  | .sigchld => s.uvChld
  | .reap => s.reapStep
  | .deliver => s.deliverStep
  | .returned => s.callbackReturned

def Init (s : Processes ι γ) : Prop :=
  s.links.Ring .handles [] ∧ s.thread = .user ∧ ∀ h, (s.proc h).live = false

/-- The node that the second walk has fetched before the callback that runs. -/
def fetched : Option (ProcNode ι) :=
  match s.thread with
  | .callback _ q => some q
  | _ => none

def Careful (s : Processes ι γ) : Event ι γ → Prop
  | .close h => s.fetched ≠ some (.proc h)
  | _ => True

instance (s : Processes ι γ) : ∀ e, Decidable (Careful s e)
  | .close h => inferInstanceAs (Decidable (s.fetched ≠ some (.proc h)))
  | .spawn _ _ _ => .isTrue trivial
  | .finishClose _ => .isTrue trivial
  | .exits _ _ => .isTrue trivial
  | .sigchld => .isTrue trivial
  | .reap => .isTrue trivial
  | .deliver => .isTrue trivial
  | .returned => .isTrue trivial

def Step (s : Processes ι γ) (e : Event ι γ) (t : Processes ι γ) : Prop := s.step e = some t

end Processes

end LibuvWorks.Unix
