import LibuvWorks.Handle
import LibuvWorks.Lib.Transition
import Mathlib.Data.List.Sort

/-!
# `unix/signal.c`

The signal handler writes a message for each handle of the signal to the pipe of the
handle's loop, and `uv__signal_event` of that loop reads and dispatches them. The handler
runs in any thread; the lock makes it exclude the critical sections of
`uv_signal_start` and `uv__signal_stop`.
-/
namespace LibuvWorks.Unix

/-- `uv__signal_msg_t` -/
structure SignalMsg (ι : Type*) where
  handle : ι
  signum : ℤ

/-- The private fields of `uv_signal_t`, and the flags that `signal.c` reads. `started` is not a
field: it says that the last call of `uv_signal_start`, `uv_signal_stop` or `uv_close` that had an
effect was a start. -/
structure UvSignal (Λ γ : Type*) where
  loop : Λ
  signum : ℤ
  signalCb : Option γ
  caughtSignals : UInt32
  dispatchedSignals : UInt32
  active : Bool
  closing : Bool
  started : Bool

/-- Where the thread of a loop is. `full` is `end == sizeof buf`, and at `callback` a signal
callback runs for the first message of the buffer. -/
inductive SignalThread where
  | user : SignalThread
  | reading (full : Bool) : SignalThread
  | dispatching (full : Bool) : SignalThread
  | callback (full : Bool) : SignalThread
  deriving DecidableEq

/-- `uv_signal_start` that has not registered the handle yet. -/
structure Starting (ι γ : Type*) where
  handle : ι
  signalCb : Option γ
  signum : ℤ

/-- The part of a loop that is about signals: its pipe, the messages in the buffer of
`uv__signal_event` that are not dispatched, and its thread. -/
structure SignalLoop (ι γ : Type*) where
  pipe : List (SignalMsg ι)
  buf : List (SignalMsg ι)
  thread : SignalThread
  starting : Option (Starting ι γ)
  closingHandles : List ι

/-- A run of `uv__signal_handler`: the handles that are left, and whether the message of
the first one has been written but not counted yet. -/
structure Walk (ι : Type*) where
  signum : ℤ
  todo : List ι
  written : Bool

/-- The process. The lock is held while `walk` is there. -/
structure Signals (Λ ι γ : Type*) where
  handle : ι → UvSignal Λ γ
  loop : Λ → SignalLoop ι γ
  tree : List ι
  registered : ℤ → Bool
  walk : Option (Walk ι)

namespace Signals

variable {Λ ι γ : Type*} [LinearOrder Λ] [LinearOrder ι] (s : Signals Λ ι γ)

def setHandle (h : ι) (v : UvSignal Λ γ) : Signals Λ ι γ :=
  { s with handle := Function.update s.handle h v }

def setLoop (i : Λ) (v : SignalLoop ι γ) : Signals Λ ι γ :=
  { s with loop := Function.update s.loop i v }

omit [LinearOrder Λ] in
@[simp] theorem setHandle_handle (h : ι) (v : UvSignal Λ γ) :
    (s.setHandle h v).handle = Function.update s.handle h v := rfl

omit [LinearOrder ι] in
@[simp] theorem setLoop_loop (i : Λ) (v : SignalLoop ι γ) :
    (s.setLoop i v).loop = Function.update s.loop i v := rfl

omit [LinearOrder Λ] in
@[simp] theorem setHandle_loop (h : ι) (v : UvSignal Λ γ) : (s.setHandle h v).loop = s.loop := rfl

omit [LinearOrder Λ] in
@[simp] theorem setHandle_walk (h : ι) (v : UvSignal Λ γ) : (s.setHandle h v).walk = s.walk := rfl

section

omit [LinearOrder ι]

@[simp] theorem setLoop_handle (i : Λ) (v : SignalLoop ι γ) :
    (s.setLoop i v).handle = s.handle := rfl

@[simp] theorem setLoop_tree (i : Λ) (v : SignalLoop ι γ) : (s.setLoop i v).tree = s.tree := rfl

@[simp] theorem setLoop_walk (i : Λ) (v : SignalLoop ι γ) : (s.setLoop i v).walk = s.walk := rfl

end

/-! ### The signal tree -/

/-- `uv__signal_compare` is not positive. -/
def uvSignalLe (a b : ι) : Prop :=
  (s.handle a).signum < (s.handle b).signum ∨ (s.handle a).signum = (s.handle b).signum ∧
    ((s.handle a).loop < (s.handle b).loop ∨ (s.handle a).loop = (s.handle b).loop ∧ a ≤ b)

instance : DecidableRel s.uvSignalLe := fun _ _ => inferInstanceAs (Decidable (_ ∨ _))

/-- The handles from the one that `RB_NFIND` finds on. -/
def uvSignalNfind (signum : ℤ) : List ι :=
  s.tree.dropWhile fun h => decide ((s.handle h).signum < signum)

def uvSignalFirstHandle (signum : ℤ) : Option ι :=
  (s.uvSignalNfind signum).head?.filter fun h => decide ((s.handle h).signum = signum)

/-- The handles that `uv__signal_handler` visits. -/
def uvSignalHandles (signum : ℤ) : List ι :=
  (s.uvSignalNfind signum).takeWhile fun h => decide ((s.handle h).signum = signum)

/-! ### `uv__signal_handler` -/

def uvSignalHandler (signum : ℤ) : Option (Signals Λ ι γ) :=
  if s.walk = none then some { s with walk := some ⟨signum, s.uvSignalHandles signum, false⟩ }
  else none

/-- `write`, which fails with `EAGAIN` when the pipe is full. -/
def handlerWrite (capacity : ℕ) (stored : Bool) : Option (Signals Λ ι γ) :=
  match s.walk with
  | some ⟨signum, h :: rest, false⟩ =>
    if stored then
      let i := (s.handle h).loop
      if (s.loop i).pipe.length < capacity then
        some { s.setLoop i { s.loop i with pipe := (s.loop i).pipe ++ [⟨h, signum⟩] } with
          walk := some ⟨signum, h :: rest, true⟩ }
      else none
    else some { s with walk := some ⟨signum, rest, false⟩ }
  | _ => none

/-- `handle->caught_signals++` -/
def handlerCount : Option (Signals Λ ι γ) :=
  match s.walk with
  | some ⟨signum, h :: rest, true⟩ =>
    some { s.setHandle h
        { s.handle h with caughtSignals := (s.handle h).caughtSignals + 1 } with
      walk := some ⟨signum, rest, false⟩ }
  | _ => none

def handlerUnlock : Option (Signals Λ ι γ) :=
  match s.walk with
  | some ⟨_, [], false⟩ => some { s with walk := none }
  | _ => none

/-! ### What a program calls -/

/-- The thread of the loop is in the code of the program. -/
def mayCall (i : Λ) : Bool :=
  (s.loop i).starting.isNone &&
    match (s.loop i).thread with
    | .user => true
    | .callback _ => true
    | _ => false

/-- `uv__signal_stop`; there is no next state while it waits for the lock. -/
def uvSignalStopHandle (h : ι) : Option (Signals Λ ι γ) :=
  if (s.handle h).signum = 0 then some s
  else if s.walk = none then
    let signum := (s.handle h).signum
    let s := { s with tree := s.tree.erase h }
    let s := if s.uvSignalFirstHandle signum = none then
        { s with registered := Function.update s.registered signum false } else s
    some (s.setHandle h { s.handle h with signum := 0, active := false })
  else none

def uvSignalStop (h : ι) : Option (Signals Λ ι γ) :=
  if !s.mayCall (s.handle h).loop ∨ (s.handle h).closing then none
  else (s.uvSignalStopHandle h).map fun s =>
    s.setHandle h { s.handle h with started := false }

def uvMakeClosePending (h : ι) : Signals Λ ι γ :=
  let i := (s.handle h).loop
  s.setLoop i { s.loop i with closingHandles := h :: (s.loop i).closingHandles }

/-- `if (handle->caught_signals == handle->dispatched_signals)` -/
def closeIfDispatched (h : ι) : Signals Λ ι γ :=
  if (s.handle h).caughtSignals = (s.handle h).dispatchedSignals then s.uvMakeClosePending h else s

/-- `uv_close` of a signal handle: the flag, and `uv__signal_close`. -/
def uvClose (h : ι) : Option (Signals Λ ι γ) :=
  if !s.mayCall (s.handle h).loop ∨ (s.handle h).closing then none
  else (s.uvSignalStopHandle h).map fun s =>
    (s.setHandle h { s.handle h with closing := true, started := false }).closeIfDispatched h

/-- `uv_signal_start`, up to the critical section that registers the handle. -/
def uvSignalStart (h : ι) (signalCb : Option γ) (signum : ℤ) : Option (Signals Λ ι γ) :=
  if !s.mayCall (s.handle h).loop ∨ (s.handle h).closing then none
  else if signum = 0 then some s
  else if signum = (s.handle h).signum then
    some (s.setHandle h { s.handle h with signalCb := signalCb, started := true })
  else (s.uvSignalStopHandle h).map fun s =>
    let i := (s.handle h).loop
    s.setLoop i { s.loop i with starting := some ⟨h, signalCb, signum⟩ }

/-- The rest of it; `fails` says that `sigaction` would fail. -/
def uvSignalRegister (i : Λ) (fails : Bool) : Option (Signals Λ ι γ) :=
  match (s.loop i).starting with
  | none => none
  | some ⟨h, signalCb, signum⟩ =>
    if s.walk ≠ none then none
    else
      let s := s.setLoop i { s.loop i with starting := none }
      if s.uvSignalFirstHandle signum = none ∧ fails then some s
      else
        let s := if s.uvSignalFirstHandle signum = none then
            { s with registered := Function.update s.registered signum true } else s
        let s := s.setHandle h
          { s.handle h with signum := signum, signalCb := signalCb, active := true, started := true }
        some { s with tree := s.tree.orderedInsert s.uvSignalLe h }

/-! ### `uv__signal_event` -/

/-- The number of messages that `buf` holds. -/
def bufMsgs : ℕ := 32

def uvSignalEvent (i : Λ) : Option (Signals Λ ι γ) :=
  if (s.loop i).thread = .user ∧ (s.loop i).starting.isNone then
    some (s.setLoop i { s.loop i with thread := .reading false })
  else none

/-- `read` of `n` messages: the writes are atomic. -/
def eventRead (i : Λ) (n : ℕ) : Option (Signals Λ ι γ) :=
  match (s.loop i).thread with
  | .reading _ =>
    if 0 < n ∧ n ≤ bufMsgs ∧ n ≤ (s.loop i).pipe.length then
      some (s.setLoop i { s.loop i with
        pipe := (s.loop i).pipe.drop n
        buf := (s.loop i).pipe.take n
        thread := .dispatching (n = bufMsgs) })
    else none
  | _ => none

/-- `read` fails; after `EINTR` the condition of the loop is tested, after `EAGAIN`
`uv__signal_event` returns. -/
def eventReadFails (i : Λ) (eintr : Bool) : Option (Signals Λ ι γ) :=
  match (s.loop i).thread with
  | .reading full =>
    some (s.setLoop i { s.loop i with
      thread := if eintr && full then .reading full else .user })
  | _ => none

/-- `handle->dispatched_signals++`, and the other messages of the buffer are left. -/
def messageDone (i : Λ) (full : Bool) (h : ι) (rest : List (SignalMsg ι)) : Signals Λ ι γ :=
  (s.setLoop i { s.loop i with buf := rest, thread := .dispatching full }).setHandle h
    { s.handle h with dispatchedSignals := (s.handle h).dispatchedSignals + 1 }

/-- The first message of the buffer has been dispatched. -/
def eventDispatched (i : Λ) (full : Bool) : Option (Signals Λ ι γ) :=
  match (s.loop i).buf with
  | [] => none
  | ⟨h, _⟩ :: rest =>
    let s := s.messageDone i full h rest
    some (if (s.handle h).closing then s.closeIfDispatched h else s)

/-- The next message: its callback begins if the handle is still watching the signal. -/
def eventDispatch (i : Λ) : Option (Signals Λ ι γ) :=
  match (s.loop i).thread, (s.loop i).buf with
  | .dispatching full, ⟨h, signum⟩ :: _ =>
    if signum = (s.handle h).signum then
      if (s.handle h).closing then none
      else some (s.setLoop i { s.loop i with thread := .callback full })
    else s.eventDispatched i full
  | _, _ => none

/-- The signal callback returns. -/
def eventReturned (i : Λ) : Option (Signals Λ ι γ) :=
  match (s.loop i).thread with
  | .callback full => if (s.loop i).starting.isNone then s.eventDispatched i full else none
  | _ => none

/-- `while (end == sizeof buf)` -/
def eventRound (i : Λ) : Option (Signals Λ ι γ) :=
  match (s.loop i).thread, (s.loop i).buf with
  | .dispatching full, [] =>
    some (s.setLoop i { s.loop i with thread := if full then .reading full else .user })
  | _, _ => none

/-! ### Runs -/

inductive Event (Λ ι γ : Type*) where
  | handler : ℤ → Event Λ ι γ
  | write : Bool → Event Λ ι γ
  | count : Event Λ ι γ
  | unlock : Event Λ ι γ
  | start : ι → Option γ → ℤ → Event Λ ι γ
  | register : Λ → Bool → Event Λ ι γ
  | stop : ι → Event Λ ι γ
  | close : ι → Event Λ ι γ
  | event : Λ → Event Λ ι γ
  | read : Λ → ℕ → Event Λ ι γ
  | readFails : Λ → Bool → Event Λ ι γ
  | dispatch : Λ → Event Λ ι γ
  | returned : Λ → Event Λ ι γ
  | round : Λ → Event Λ ι γ

/-- `capacity` is the number of messages that a pipe holds. -/
def step (capacity : ℕ) : Event Λ ι γ → Option (Signals Λ ι γ)
  | .handler signum => s.uvSignalHandler signum
  | .write stored => s.handlerWrite capacity stored
  | .count => s.handlerCount
  | .unlock => s.handlerUnlock
  | .start h signalCb signum => s.uvSignalStart h signalCb signum
  | .register i fails => s.uvSignalRegister i fails
  | .stop h => s.uvSignalStop h
  | .close h => s.uvClose h
  | .event i => s.uvSignalEvent i
  | .read i n => s.eventRead i n
  | .readFails i eintr => s.eventReadFails i eintr
  | .dispatch i => s.eventDispatch i
  | .returned i => s.eventReturned i
  | .round i => s.eventRound i

/-- The handles were initialised and no signal was caught yet. -/
def Init (s : Signals Λ ι γ) : Prop :=
  s.tree = [] ∧ s.walk = none ∧
    (∀ h, (s.handle h).signum = 0 ∧ (s.handle h).caughtSignals = 0 ∧
      (s.handle h).dispatchedSignals = 0 ∧ (s.handle h).closing = false) ∧
    ∀ i, (s.loop i).pipe = [] ∧ (s.loop i).buf = [] ∧ (s.loop i).thread = .user ∧
      (s.loop i).starting = none ∧ (s.loop i).closingHandles = []

def Step (capacity : ℕ) (s : Signals Λ ι γ) (e : Event Λ ι γ) (t : Signals Λ ι γ) : Prop :=
  s.step capacity e = some t

end Signals

end LibuvWorks.Unix
