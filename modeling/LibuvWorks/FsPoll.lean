import LibuvWorks.Lib.Transition
import Mathlib.Algebra.Group.Nat.Defs

/-!
# The polling of files

A `uv_fs_poll_t` that is started owns a context with a timer and a stat request of its own. The
completion of the request arms the timer, and the timer makes the next request. When the handle is
stopped or closed it lets go of the context, which ends with the close callback of its timer. Each
step below is a call by the user's code, an expiry or a completion, up to the user's callback when
it is called, or the return of that.
-/

namespace LibuvWorks

open Transition

structure UvTimespec where
  sec : ℤ
  nsec : ℤ

/-- `uv_stat_t` -/
structure UvStat where
  dev : ℕ
  mode : ℕ
  nlink : ℕ
  uid : ℕ
  gid : ℕ
  rdev : ℕ
  ino : ℕ
  size : ℕ
  blksize : ℕ
  blocks : ℕ
  flags : ℕ
  gen : ℕ
  atim : UvTimespec
  mtim : UvTimespec
  ctim : UvTimespec
  birthtim : UvTimespec

def zeroStatbuf : UvStat where
  dev := 0
  mode := 0
  nlink := 0
  uid := 0
  gid := 0
  rdev := 0
  ino := 0
  size := 0
  blksize := 0
  blocks := 0
  flags := 0
  gen := 0
  atim := ⟨0, 0⟩
  mtim := ⟨0, 0⟩
  ctim := ⟨0, 0⟩
  birthtim := ⟨0, 0⟩

def statbufEq (a b : UvStat) : Bool :=
  a.ctim.nsec == b.ctim.nsec
    && a.mtim.nsec == b.mtim.nsec
    && a.birthtim.nsec == b.birthtim.nsec
    && a.ctim.sec == b.ctim.sec
    && a.mtim.sec == b.mtim.sec
    && a.birthtim.sec == b.birthtim.sec
    && a.size == b.size
    && a.mode == b.mode
    && a.uid == b.uid
    && a.gid == b.gid
    && a.ino == b.ino
    && a.dev == b.dev
    && a.flags == b.flags
    && a.gen == b.gen

inductive StatResult where
  | failed (error : ℤ)
  | found (statbuf : UvStat)

/-- The timer of a context; an armed one has the delay that it was started with. -/
inductive PollTimer where
  | inactive
  | armed (delay : ℕ)
  | closing
  | closed
  deriving DecidableEq

def StatResult.Legit : StatResult → Prop
  | .failed error => error < 0
  | .found _ => True

instance : DecidablePred StatResult.Legit := fun r => by
  cases r <;> unfold StatResult.Legit <;> infer_instance

def PollTimer.isArmed : PollTimer → Bool
  | .armed _ => true
  | _ => false

structure PollReport where
  status : ℤ
  prev : UvStat
  curr : UvStat

/-- `struct poll_ctx`. `stats` is the number of its stat requests in flight and `freed` how often
it was freed. No step reads the last two fields: `seen` are the results of its requests while it
had a handle, the last first, and `reports` the calls of its callback. -/
structure PollCtx (ι : Type*) where
  parentHandle : Option ι
  busyPolling : ℤ
  interval : ℕ
  startTime : ℕ
  pollCb : ℕ
  statbuf : UvStat
  timer : PollTimer
  stats : ℕ
  freed : ℕ
  seen : List StatResult
  reports : List PollReport

namespace PollCtx

variable {ι : Type*}

/-- The call of the user's callback for a result, if there is one. -/
def report (x : PollCtx ι) : StatResult → Option PollReport
  | .failed error => if x.busyPolling ≠ error then some ⟨error, x.statbuf, zeroStatbuf⟩ else none
  | .found statbuf =>
    if x.busyPolling ≠ 0 ∧ (x.busyPolling < 0 ∨ statbufEq x.statbuf statbuf = false) then
      some ⟨0, x.statbuf, statbuf⟩
    else none

def keep (x : PollCtx ι) : StatResult → PollCtx ι
  | .failed error => { x with busyPolling := error }
  | .found statbuf => { x with statbuf := statbuf, busyPolling := 1 }

end PollCtx

inductive PollNote (ι : Type*) where
  | started (h : ι) (c : ℕ)
  | ended (h : ι)
  | called (h : ι) (c : ℕ)

/-- A loop with polling handles. The contexts are numbered as they are allocated, `running` is the
one whose callback runs, with the result that led to it, and `log` is what happened so far, the
last first. -/
structure FsPoll (ι : Type*) where
  now : ℕ
  active : ι → Bool
  closing : ι → Bool
  pollCtx : ι → Option ℕ
  created : ℕ
  ctx : ℕ → PollCtx ι
  running : Option (ℕ × StatResult)
  log : List (PollNote ι)

namespace FsPoll

inductive Event (ι : Type*) where
  | updateTime (now : ℕ)
  | start (h : ι) (cb interval : ℕ) (allocated : Bool) (err : ℤ)
  | stop (h : ι)
  | close (h : ι)
  | timer (c : ℕ)
  | complete (c : ℕ) (r : StatResult)
  | returned
  | timerClosed (c : ℕ)

variable {ι : Type*} [DecidableEq ι] (s : FsPoll ι)

def read (c : ℕ) : Option (PollCtx ι) :=
  if c < s.created ∧ (s.ctx c).freed = 0 then some (s.ctx c) else none

def setCtx (c : ℕ) (x : PollCtx ι) : FsPoll ι := { s with ctx := Function.update s.ctx c x }

/-- `uv_close` of the timer of a context, which must not be closing yet -/
def closeTimer (c : ℕ) (x : PollCtx ι) : Option (FsPoll ι) :=
  match x.timer with
  | .closing | .closed => none
  | _ => some (s.setCtx c { x with timer := .closing })

/-- `uv_fs_poll_start`; `err` is what `uv_fs_stat` returns -/
def uvFsPollStart (h : ι) (cb interval : ℕ) (allocated : Bool) (err : ℤ) : FsPoll ι :=
  if s.active h then s
  else if allocated = false then s
  else
    let x : PollCtx ι :=
      { parentHandle := some h
        busyPolling := 0
        interval := if interval = 0 then 1 else interval
        startTime := s.now
        pollCb := cb
        statbuf := zeroStatbuf
        timer := .inactive
        stats := 0
        freed := 0
        seen := []
        reports := [] }
    let s' : FsPoll ι := { s with created := s.created + 1 }
    if err < 0 then s'.setCtx s.created { x with freed := 1 }
    else
      { s'.setCtx s.created { x with stats := 1 } with
        pollCtx := Function.update s.pollCtx h (some s.created)
        active := Function.update s.active h true
        log := .started h s.created :: s.log }

/-- `uv_fs_poll_stop` lets go of the context; its timer is closed when it is active, and otherwise
a stat request is in progress and `poll_cb` takes care of the cleanup. -/
def uvFsPollStop (h : ι) : Option (FsPoll ι) :=
  let s : FsPoll ι := { s with log := .ended h :: s.log }
  if s.active h = false then some s
  else
    (s.pollCtx h).bind fun c => (s.read c).bind fun x =>
      if x.parentHandle = none then none
      else
        let x : PollCtx ι := { x with parentHandle := none }
        let s : FsPoll ι :=
          { s.setCtx c x with
            pollCtx := Function.update s.pollCtx h none
            active := Function.update s.active h false }
        if x.timer.isArmed then s.closeTimer c x else some s

/-- `timer_cb`; the process is aborted when the stat request cannot be made -/
def timerCb (c : ℕ) : Option (FsPoll ι) := do
  let x ← s.read c
  let h ← x.parentHandle
  if s.pollCtx h ≠ some c then none
  else some (s.setCtx c { x with timer := .inactive, startTime := s.now, stats := x.stats + 1 })

/-- `poll_cb` from `out` on: the context is closed or its timer is started -/
def out (c : ℕ) (x : PollCtx ι) : Option (FsPoll ι) :=
  if x.parentHandle = none then s.closeTimer c x
  else
    match x.timer with
    | .closing | .closed => none
    | _ =>
      let elapsed := (s.now + 2 ^ 64 - x.startTime) % 2 ^ 64
      some (s.setCtx c { x with timer := .armed (x.interval - elapsed % x.interval) })

/-- `poll_cb`, up to the user's callback if it is called -/
def pollCb (c : ℕ) (r : StatResult) : Option (FsPoll ι) := do
  let x ← s.read c
  let x : PollCtx ι := { x with stats := x.stats - 1 }
  match x.parentHandle with
  | none => s.closeTimer c x
  | some h =>
    let x : PollCtx ι := { x with seen := r :: x.seen }
    match x.report r with
    | none => s.out c (x.keep r)
    | some report =>
      some { s.setCtx c { x with reports := x.reports ++ [report] } with
        running := some (c, r)
        log := .called h c :: s.log }

/-- The rest of `poll_cb`, when the user's callback has returned -/
def pollCbReturn : Option (FsPoll ι) :=
  s.running.bind fun (c, r) => (s.read c).bind fun x =>
    { s with running := none }.out c (x.keep r)

def timerCloseCb (c : ℕ) : Option (FsPoll ι) := do
  let x ← s.read c
  if x.timer = .closing then some (s.setCtx c { x with timer := .closed, freed := x.freed + 1 })
  else none

def next : Event ι → Option (FsPoll ι)
  | .updateTime now => some { s with now := now }
  | .start h cb interval allocated err => some (s.uvFsPollStart h cb interval allocated err)
  | .stop h => s.uvFsPollStop h
  | .close h => { s with closing := Function.update s.closing h true }.uvFsPollStop h
  | .timer c => s.timerCb c
  | .complete c r => s.pollCb c r
  | .returned => s.pollCbReturn
  | .timerClosed c => s.timerCloseCb c

/-- The user calls as it likes, but for handles that are closing. Timers expire, requests complete
and close callbacks run when no callback does; a request fails with a negative error. -/
def Enabled : Event ι → Prop
  | .updateTime _ | .stop _ => True
  | .start h _ _ _ _ | .close h => s.closing h = false
  | .timer c => s.running = none ∧ c < s.created ∧ (s.ctx c).timer.isArmed = true
  | .complete c r => s.running = none ∧ c < s.created ∧ 0 < (s.ctx c).stats ∧ r.Legit
  | .returned => s.running ≠ none
  | .timerClosed c => s.running = none ∧ c < s.created ∧ (s.ctx c).timer = .closing

instance : DecidablePred s.Enabled := fun e => by
  cases e <;> unfold Enabled <;> infer_instance

def step (e : Event ι) : Option (FsPoll ι) := if s.Enabled e then s.next e else none

/-- A loop with handles that have been initialised. -/
def init (junk : ℕ → PollCtx ι) : FsPoll ι where
  now := 0
  active _ := false
  closing _ := false
  pollCtx _ := none
  created := 0
  ctx := junk
  running := none
  log := []

abbrev Step (s : FsPoll ι) (e : Event ι) (t : FsPoll ι) : Prop := s.step e = some t

end FsPoll

end LibuvWorks
