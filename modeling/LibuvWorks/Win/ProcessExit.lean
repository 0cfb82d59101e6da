import LibuvWorks.Lib.Transition
import Mathlib.Data.Int.Notation

/-!
# The exit of a child process on Windows

`uv_spawn` registers a wait for the child, whose callback runs on a thread of the system: it sets
`exit_cb_pending` and posts the exit request. The loop processes the request, and the user may close
the handle at any time. Each step below is one of the main thread or one of the wait thread, which
may come in between.
-/

open Bool

namespace LibuvWorks.Win

open Transition

/-- What the main thread does: it is in `uv_spawn` before or after the registration, in the user's
exit callback, or in `UnregisterWaitEx`, perhaps called from there. When it is idle it runs other
code. -/
inductive ProcessMain where
  | spawning
  | registered
  | idle
  | exitCb
  | unregistering (inExitCb : Bool)
  deriving DecidableEq

inductive ExitWait where
  | unregistered
  | waiting
  | called
  | flagged
  | posted
  | returned
  deriving DecidableEq

/-- A call of the exit callback; `closing` tells if the handle was. -/
structure ExitCall where
  exitCode : ℤ
  termSignal : ℤ
  closing : Bool

/-- A `uv_process_t`. `outstanding` is the number of exit requests that are posted and not
processed. No step reads the fields from `posts` on: how many were posted, the calls of the exit
callback, and for each time that the endgame was queued whether an exit request was outstanding. -/
structure ProcessExit where
  exitCb : Bool
  exitSignal : ℤ
  exitCbPending : Bool
  waitHandle : Bool
  processHandle : Bool
  active : Bool
  closing : Bool
  endgameQueued : Bool
  closed : Bool
  main : ProcessMain
  wait : ExitWait
  exitStatus : Option ℤ
  outstanding : ℕ
  posts : ℕ
  calls : List ExitCall
  endgames : List Bool

namespace ProcessExit

inductive Event where
  | spawnFail
  | registerWait
  | handleStart
  | kill (signum err : ℤ)
  | exit (status : ℤ)
  | waitBegin
  | waitFlag
  | waitPost
  | waitReturn
  | procExit (err : Option ℤ)
  | exitCbReturn
  | close
  | unregistered
  | endgame

variable (s : ProcessExit)

def uvWantEndgame : ProcessExit :=
  if s.endgameQueued then s
  else { s with endgameQueued := true, endgames := s.endgames ++ [decide (0 < s.outstanding)] }

/-- `RegisterWaitForSingleObject` in `uv_spawn`, which can only fail before -/
def registerWait : ProcessExit :=
  { s with processHandle := true, waitHandle := true, wait := .waiting, main := .registered }

def uvProcessKill (signum err : ℤ) : ProcessExit :=
  if s.processHandle = false ∨ err ≠ 0 then s else { s with exitSignal := signum }

/-- `exit_wait_callback`, the assertion and the flag; the handle must not have been closed -/
def waitFlag : Option ProcessExit :=
  if s.closed = true ∨ s.exitCbPending = true then none
  else some { s with exitCbPending := true, wait := .flagged }

/-- `POST_COMPLETION_FOR_REQ` -/
def waitPost : Option ProcessExit :=
  if s.closed then none
  else
    some { s with outstanding := s.outstanding + 1, posts := s.posts + 1, wait := .posted }

/-- `UnregisterWait` does not wait for a callback that runs. -/
def unregisterWait : ProcessExit :=
  { s with
    waitHandle := false
    wait := if s.wait = .waiting then .unregistered else s.wait }

/-- `uv_process_proc_exit` where the handle is not closing, up to the call of the exit callback;
`err` is what stands for the exit code if that is not obtained -/
def fireExitCb (err : Option ℤ) : ProcessExit :=
  let s := if s.waitHandle then s.unregisterWait else s
  let s : ProcessExit := { s with active := false }
  if s.exitCb then
    let call : ExitCall :=
      { exitCode := err.getD (s.exitStatus.getD 0)
        termSignal := s.exitSignal
        closing := s.closing }
    { s with main := .exitCb, calls := s.calls ++ [call] }
  else s

def uvProcessProcExit (err : Option ℤ) : Option ProcessExit :=
  if s.closed = true ∨ s.exitCbPending = false then none
  else
    let s : ProcessExit := { s with outstanding := s.outstanding - 1, exitCbPending := false }
    some (if s.closing then s.uvWantEndgame else s.fireExitCb err)

/-- `uv_process_close` after the wait is unregistered -/
def closeFinish (inExitCb : Bool) : ProcessExit :=
  let s : ProcessExit := { s with main := if inExitCb then .exitCb else .idle }
  if s.exitCbPending then s else s.uvWantEndgame

/-- `uv_process_close`, up to the call of `UnregisterWaitEx` if it is made -/
def uvProcessClose : ProcessExit :=
  let inExitCb : Bool := s.main = .exitCb
  let s : ProcessExit := { s with closing := true, active := false }
  if s.waitHandle then { s with main := .unregistering inExitCb } else s.closeFinish inExitCb

/-- The rest of it; the wait is cancelled if its callback was not called. -/
def unregisterWaitEx : Option ProcessExit :=
  match s.main with
  | .unregistering inExitCb => some (s.unregisterWait.closeFinish inExitCb)
  | _ => none

def uvProcessEndgame : Option ProcessExit :=
  let s : ProcessExit := { s with endgameQueued := false }
  if s.exitCbPending = true ∨ s.closing = false ∨ s.closed = true then none
  else some { s with processHandle := false, closed := true }

def next : Event → Option ProcessExit
  | .spawnFail => some { s with main := .idle }
  | .registerWait => some s.registerWait
  | .handleStart => some { s with active := true, main := .idle }
  | .kill signum err => some (s.uvProcessKill signum err)
  | .exit status => some { s with exitStatus := some status }
  | .waitBegin => some { s with wait := .called }
  | .waitFlag => s.waitFlag
  | .waitPost => s.waitPost
  | .waitReturn => some { s with wait := .returned }
  | .procExit err => s.uvProcessProcExit err
  | .exitCbReturn => some { s with main := .idle }
  | .close => some s.uvProcessClose
  | .unregistered => s.unregisterWaitEx
  | .endgame => s.uvProcessEndgame

/-- The callback of the wait is called once, when the child has exited. `UnregisterWaitEx` returns
when it does not run. -/
def Enabled : Event → Prop
  | .spawnFail | .registerWait => s.main = .spawning
  | .handleStart => s.main = .registered
  | .kill .. => (s.main = .idle ∨ s.main = .exitCb) ∧ s.closed = false
  | .exit _ => s.processHandle = true ∧ s.exitStatus = none
  | .waitBegin => s.wait = .waiting ∧ s.exitStatus ≠ none
  | .waitFlag => s.wait = .called
  | .waitPost => s.wait = .flagged
  | .waitReturn => s.wait = .posted
  | .procExit _ => s.main = .idle ∧ 0 < s.outstanding
  | .exitCbReturn => s.main = .exitCb
  | .close => (s.main = .idle ∨ s.main = .exitCb) ∧ s.closing = false
  | .unregistered => (∃ inExitCb, s.main = .unregistering inExitCb) ∧
    s.wait ≠ .called ∧ s.wait ≠ .flagged ∧ s.wait ≠ .posted
  | .endgame => s.main = .idle ∧ s.endgameQueued = true

instance : DecidablePred s.Enabled := fun e => by
  cases e <;> unfold Enabled <;> infer_instance

def step (e : Event) : Option ProcessExit := if s.Enabled e then s.next e else none

/-- `uv_process_init`; `exitCb` tells if there is an exit callback -/
def init (exitCb : Bool) : ProcessExit where
  exitCb := exitCb
  exitSignal := 0
  exitCbPending := false
  waitHandle := false
  processHandle := false
  active := false
  closing := false
  endgameQueued := false
  closed := false
  main := .spawning
  wait := .unregistered
  exitStatus := none
  outstanding := 0
  posts := 0
  calls := []
  endgames := []

abbrev Step (s : ProcessExit) (e : Event) (t : ProcessExit) : Prop := s.step e = some t

end ProcessExit

end LibuvWorks.Win

/-!
## The close of a process handle

When the handle is closed the wait is unregistered, so that its callback has run to its end or will
not run. Whether it has set its flag decides who queues the endgame: the close itself, or the
processing of the exit request.
-/

namespace LibuvWorks.Win

open Transition

namespace ProcessExit

variable {s t : ProcessExit} {b : Bool}

inductive Stage (s : ProcessExit) : Prop
  | quiet : s.wait = .unregistered → s.waitHandle = false → s.exitCbPending = false →
    s.outstanding = 0 → s.posts = 0 → s.calls = [] → Stage s
  | waiting : s.wait = .waiting ∨ s.wait = .called → s.waitHandle = true →
    s.exitCbPending = false → s.outstanding = 0 → s.posts = 0 → s.calls = [] → Stage s
  | flagged : s.wait = .flagged → s.waitHandle = true → s.exitCbPending = true →
    s.outstanding = 0 → s.posts = 0 → s.calls = [] → Stage s
  | posted : s.wait = .posted ∧ s.waitHandle = true ∨ s.wait = .returned →
    s.exitCbPending = true → s.outstanding = 1 → s.posts = 1 → s.calls = [] → Stage s
  | processed : s.wait = .posted ∨ s.wait = .returned → s.waitHandle = false →
    s.exitCbPending = false → s.outstanding = 0 → s.posts = 1 → s.calls.length ≤ 1 → Stage s

inductive Ending (s : ProcessExit) : Prop
  | unregistering (inExitCb : Bool) : s.main = .unregistering inExitCb → s.waitHandle = true →
    s.endgames = [] → s.endgameQueued = false → s.closed = false → Ending s
  | postponed : (∀ b, s.main ≠ .unregistering b) → s.waitHandle = false →
    s.exitCbPending = true → s.endgames = [] → s.endgameQueued = false → s.closed = false → Ending s
  | wanted : (∀ b, s.main ≠ .unregistering b) → s.waitHandle = false →
    s.exitCbPending = false → s.endgames = [false] → (s.endgameQueued = true ↔ s.closed = false) →
    Ending s

structure Open (s : ProcessExit) : Prop where
  main : ∀ b, s.main ≠ .unregistering b
  endgames : s.endgames = []
  endgameQueued : s.endgameQueued = false
  closed : s.closed = false

structure Sound (s : ProcessExit) : Prop where
  stage : s.Stage
  spawning : s.main = .spawning → s.wait = .unregistered ∧ s.closing = false
  opened : s.closing = false → s.Open
  ending : s.closing = true → s.Ending
  calls : ∀ c ∈ s.calls, c.closing = false

theorem sound_init (exitCb : Bool) : Sound (init exitCb) where
  stage := .quiet rfl rfl rfl rfl rfl rfl
  spawning _ := ⟨rfl, rfl⟩
  opened _ := ⟨nofun, rfl, rfl, rfl⟩
  ending := nofun
  calls _ := nofun

theorem Stage.bounds (h : Stage s) : s.calls.length ≤ 1 ∧ s.posts ≤ 1 := by
  cases h with
  | quiet _ _ _ _ hposts hcalls | waiting _ _ _ _ hposts hcalls | flagged _ _ _ _ hposts hcalls
  | posted _ _ _ hposts hcalls => simp [hposts, hcalls]
  | processed _ _ _ _ hposts hcalls => exact ⟨hcalls, Nat.le_of_eq hposts⟩

theorem Stage.outstanding_eq (h : Stage s) (hwait : s.waitHandle = false) :
    s.outstanding = if s.exitCbPending then 1 else 0 := by
  cases h with
  | quiet _ _ hpending hout => rw [hpending, hout, if_neg nofun]
  | waiting _ hhandle | flagged _ hhandle => exact absurd (hwait.symm.trans hhandle) nofun
  | posted _ hpending hout => rw [hpending, hout, if_pos rfl]
  | processed _ _ hpending hout => rw [hpending, hout, if_neg nofun]

theorem Sound.closed (hs : Sound s) (hclosed : s.closed = true) :
    s.waitHandle = false ∧ s.exitCbPending = false := by
  cases hclosing : s.closing with
  | false => exact absurd ((hs.opened hclosing).closed.symm.trans hclosed) nofun
  | true =>
    cases hs.ending hclosing with
    | unregistering _ _ _ _ _ hnot | postponed _ _ _ _ _ hnot =>
      exact absurd (hnot.symm.trans hclosed) nofun
    | wanted _ hhandle hpending => exact ⟨hhandle, hpending⟩

/-! ## The wait thread -/

/-- The wait thread changes only its own state, the flag and the request, and none of these but its
own state once the wait is unregistered. -/
theorem Sound.other (hs : Sound s) {wait : ExitWait} {exitStatus : Option ℤ}
    {pending : Bool} {outstanding posts : ℕ}
    (hstage : Stage { s with
      wait := wait
      exitStatus := exitStatus
      exitCbPending := pending
      outstanding := outstanding
      posts := posts })
    (hspawning : s.main = .spawning → wait = .unregistered)
    (hpending : s.waitHandle = false → pending = s.exitCbPending) :
    Sound { s with
      wait := wait
      exitStatus := exitStatus
      exitCbPending := pending
      outstanding := outstanding
      posts := posts } := by
  refine ⟨hstage, fun hmain => ⟨hspawning hmain, (hs.spawning hmain).2⟩, fun hclosing => ?_,
    fun hclosing => ?_, hs.calls⟩
  · have hopen := hs.opened hclosing
    exact { hopen with }
  · cases hs.ending hclosing with
    | unregistering inExitCb hmain hhandle hendgames hqueued hclosed =>
      exact .unregistering inExitCb hmain hhandle hendgames hqueued hclosed
    | postponed hmain hhandle hp hendgames hqueued hclosed =>
      exact .postponed hmain hhandle ((hpending hhandle).trans hp) hendgames hqueued hclosed
    | wanted hmain hhandle hp hendgames hqueued =>
      exact .wanted hmain hhandle ((hpending hhandle).trans hp) hendgames hqueued

theorem Stage.congr (h : Stage s) (hwait : t.wait = s.wait) (hhandle : t.waitHandle = s.waitHandle)
    (hpending : t.exitCbPending = s.exitCbPending) (hout : t.outstanding = s.outstanding)
    (hposts : t.posts = s.posts) (hcalls : t.calls = s.calls) : Stage t := by
  cases h with
  | quiet h₁ h₂ h₃ h₄ h₅ h₆ =>
    exact .quiet (hwait.trans h₁) (hhandle.trans h₂) (hpending.trans h₃) (hout.trans h₄)
      (hposts.trans h₅) (hcalls.trans h₆)
  | waiting h₁ h₂ h₃ h₄ h₅ h₆ =>
    exact .waiting (hwait ▸ h₁) (hhandle.trans h₂) (hpending.trans h₃) (hout.trans h₄)
      (hposts.trans h₅) (hcalls.trans h₆)
  | flagged h₁ h₂ h₃ h₄ h₅ h₆ =>
    exact .flagged (hwait.trans h₁) (hhandle.trans h₂) (hpending.trans h₃) (hout.trans h₄)
      (hposts.trans h₅) (hcalls.trans h₆)
  | posted h₁ h₂ h₃ h₄ h₅ =>
    exact .posted (hwait ▸ hhandle ▸ h₁) (hpending.trans h₂) (hout.trans h₃) (hposts.trans h₄)
      (hcalls.trans h₅)
  | processed h₁ h₂ h₃ h₄ h₅ h₆ =>
    exact .processed (hwait ▸ h₁) (hhandle.trans h₂) (hpending.trans h₃) (hout.trans h₄)
      (hposts.trans h₅) (hcalls ▸ h₆)

theorem Stage.of_called (h : Stage s) (hwait : s.wait = .waiting ∨ s.wait = .called) :
    s.waitHandle = true ∧ s.exitCbPending = false ∧ s.outstanding = 0 ∧ s.posts = 0 ∧
      s.calls = [] := by
  cases h with
  | waiting _ hhandle hpending hout hposts hcalls => exact ⟨hhandle, hpending, hout, hposts, hcalls⟩
  | quiet h | flagged h => simp [h] at hwait
  | posted h => rcases h with ⟨h, -⟩ | h <;> simp [h] at hwait
  | processed h => rcases h with h | h <;> simp [h] at hwait

theorem Stage.of_flagged (h : Stage s) (hwait : s.wait = .flagged) :
    s.waitHandle = true ∧ s.exitCbPending = true ∧ s.outstanding = 0 ∧ s.posts = 0 ∧
      s.calls = [] := by
  cases h with
  | flagged _ hhandle hpending hout hposts hcalls => exact ⟨hhandle, hpending, hout, hposts, hcalls⟩
  | quiet h => simp [h] at hwait
  | waiting h | posted h | processed h => simp [hwait] at h

theorem Stage.of_unregistered (h : Stage s) (hwait : s.wait = .unregistered) :
    s.exitCbPending = false ∧ s.outstanding = 0 ∧ s.posts = 0 ∧ s.calls = [] := by
  cases h with
  | quiet _ _ hpending hout hposts hcalls => exact ⟨hpending, hout, hposts, hcalls⟩
  | flagged h | waiting h | posted h | processed h => simp [hwait] at h

theorem Sound.not_spawning (hs : Sound s) (hwait : s.wait ≠ .unregistered) {wait : ExitWait} :
    s.main = .spawning → wait = .unregistered :=
  fun hmain => absurd (hs.spawning hmain).1 hwait

theorem Sound.waitBegin (hs : Sound s) (hwait : s.wait = .waiting) :
    Sound { s with wait := .called } := by
  obtain ⟨hhandle, hpending, hout, hposts, hcalls⟩ := hs.stage.of_called (.inl hwait)
  have hnot : s.wait ≠ .unregistered := by simp [hwait]
  apply hs.other
  · exact .waiting (.inr rfl) hhandle hpending hout hposts hcalls
  · exact hs.not_spawning hnot
  · exact fun _ => rfl

theorem Sound.waitFlag (hs : Sound s) (hwait : s.wait = .called) :
    ∃ t, s.waitFlag = some t ∧ Sound t := by
  obtain ⟨hhandle, hpending, hout, hposts, hcalls⟩ := hs.stage.of_called (.inr hwait)
  have hclosed : s.closed ≠ true := fun habs =>
    absurd (hhandle.symm.trans (hs.closed habs).1) nofun
  have hnot : s.wait ≠ .unregistered := by simp [hwait]
  have hif : ¬(s.closed = true ∨ s.exitCbPending = true) := by simp [hclosed, hpending]
  refine ⟨_, if_neg hif, ?_⟩
  apply hs.other
  · exact .flagged rfl hhandle rfl hout hposts hcalls
  · exact hs.not_spawning hnot
  · exact fun habs => absurd (hhandle.symm.trans habs) nofun

theorem Sound.waitPost (hs : Sound s) (hwait : s.wait = .flagged) :
    ∃ t, s.waitPost = some t ∧ Sound t := by
  obtain ⟨hhandle, hpending, hout, hposts, hcalls⟩ := hs.stage.of_flagged hwait
  have hclosed : s.closed ≠ true := fun habs =>
    absurd (hhandle.symm.trans (hs.closed habs).1) nofun
  have hnot : s.wait ≠ .unregistered := by simp [hwait]
  refine ⟨_, if_neg hclosed, ?_⟩
  apply hs.other
  · refine .posted (.inl ⟨rfl, hhandle⟩) hpending ?_ ?_ hcalls
    · exact congrArg (· + 1) hout
    · exact congrArg (· + 1) hposts
  · exact hs.not_spawning hnot
  · exact fun _ => rfl

theorem Sound.waitReturn (hs : Sound s) (hwait : s.wait = .posted) :
    Sound { s with wait := .returned } := by
  have hnot : s.wait ≠ .unregistered := by simp [hwait]
  apply hs.other
  · cases hs.stage with
    | posted _ hpending hout hposts hcalls => exact .posted (.inr rfl) hpending hout hposts hcalls
    | processed _ hhandle hpending hout hposts hcalls =>
      exact .processed (.inr rfl) hhandle hpending hout hposts hcalls
    | quiet h | waiting h | flagged h => simp [hwait] at h
  · exact hs.not_spawning hnot
  · exact fun _ => rfl

/-! ## The main thread -/

theorem Sound.goOn (hs : Sound s) {main : ProcessMain} {active : Bool} {exitSignal : ℤ}
    (hfrom : ∀ b, s.main ≠ .unregistering b) (hto : ∀ b, main ≠ .unregistering b)
    (hspawning : main ≠ .spawning) :
    Sound { s with main := main, active := active, exitSignal := exitSignal } := by
  refine ⟨hs.stage.congr rfl rfl rfl rfl rfl rfl, fun habs => absurd habs hspawning,
    fun hclosing => ?_, fun hclosing => ?_, hs.calls⟩
  · have hopen := hs.opened hclosing
    exact { hopen with main := hto }
  · cases hs.ending hclosing with
    | unregistering inExitCb hmain => exact absurd hmain (hfrom inExitCb)
    | postponed _ hhandle hp hendgames hqueued hclosed =>
      exact .postponed hto hhandle hp hendgames hqueued hclosed
    | wanted _ hhandle hp hendgames hqueued => exact .wanted hto hhandle hp hendgames hqueued

theorem Sound.uvWantEndgame (hstage : Stage s) (hmain : ∀ b, s.main ≠ .unregistering b)
    (hspawning : s.main ≠ .spawning) (hclosing : s.closing = true) (hhandle : s.waitHandle = false)
    (hpending : s.exitCbPending = false) (hendgames : s.endgames = [])
    (hqueued : s.endgameQueued = false) (hclosed : s.closed = false)
    (hcalls : ∀ c ∈ s.calls, c.closing = false) : Sound s.uvWantEndgame := by
  have hout : s.outstanding = 0 := by rw [hstage.outstanding_eq hhandle, hpending, if_neg nofun]
  have hwant : s.uvWantEndgame = { s with endgameQueued := true, endgames := [false] } := by
    simp [ProcessExit.uvWantEndgame, hqueued, hendgames, hout]
  rw [hwant]
  refine ⟨hstage.congr rfl rfl rfl rfl rfl rfl, fun habs => absurd habs hspawning,
    fun habs => absurd (hclosing.symm.trans habs) nofun, fun _ => ?_, hcalls⟩
  exact .wanted hmain hhandle hpending rfl ⟨fun _ => hclosed, fun _ => rfl⟩

theorem Sound.closeFinish (hstage : Stage s) (hclosing : s.closing = true)
    (hhandle : s.waitHandle = false) (hendgames : s.endgames = [])
    (hqueued : s.endgameQueued = false) (hclosed : s.closed = false)
    (hcalls : ∀ c ∈ s.calls, c.closing = false) (inExitCb : Bool) :
    Sound (s.closeFinish inExitCb) := by
  have hmain : ∀ b, (if inExitCb then ProcessMain.exitCb else .idle) ≠ .unregistering b := by
    cases inExitCb <;> exact fun _ => nofun
  have hspawning : (if inExitCb then ProcessMain.exitCb else .idle) ≠ .spawning := by
    cases inExitCb <;> exact nofun
  unfold ProcessExit.closeFinish
  by_cases hpending : s.exitCbPending = true
  · rw [if_pos hpending]
    refine ⟨hstage.congr rfl rfl rfl rfl rfl rfl, fun habs => absurd habs hspawning,
      fun habs => absurd (hclosing.symm.trans habs) nofun, fun _ => ?_, hcalls⟩
    exact .postponed hmain hhandle hpending hendgames hqueued hclosed
  · rw [if_neg hpending]
    exact Sound.uvWantEndgame (hstage.congr rfl rfl rfl rfl rfl rfl) hmain hspawning hclosing hhandle
      (eq_false_iff.mpr hpending) hendgames hqueued hclosed hcalls

theorem Sound.uvProcessClose (hs : Sound s) (hmain : s.main = .idle ∨ s.main = .exitCb)
    (hclosing : s.closing = false) : Sound s.uvProcessClose := by
  have hopen := hs.opened hclosing
  unfold ProcessExit.uvProcessClose
  by_cases hhandle : s.waitHandle = true
  · rw [if_pos hhandle]
    refine ⟨hs.stage.congr rfl rfl rfl rfl rfl rfl, nofun, nofun, fun _ => ?_, hs.calls⟩
    exact .unregistering _ rfl hhandle hopen.endgames hopen.endgameQueued hopen.closed
  · rw [if_neg hhandle]
    apply Sound.closeFinish
    · exact hs.stage.congr rfl rfl rfl rfl rfl rfl
    · rfl
    · exact eq_false_iff.mpr hhandle
    · exact hopen.endgames
    · exact hopen.endgameQueued
    · exact hopen.closed
    · exact hs.calls

theorem Sound.unregisterWaitEx (hs : Sound s) {inExitCb : Bool}
    (hmain : s.main = .unregistering inExitCb) (hcalled : s.wait ≠ .called)
    (hflagged : s.wait ≠ .flagged) (hposted : s.wait ≠ .posted) :
    ∃ t, s.unregisterWaitEx = some t ∧ Sound t := by
  unfold ProcessExit.unregisterWaitEx
  rw [hmain]
  refine ⟨_, rfl, ?_⟩
  have hclosing : s.closing = true := by
    cases hclosing : s.closing with
    | true => rfl
    | false => exact absurd hmain ((hs.opened hclosing).main inExitCb)
  cases hs.ending hclosing with
  | postponed hnot | wanted hnot => exact absurd hmain (hnot inExitCb)
  | unregistering _ _ hhandle hendgames hqueued hclosed =>
    apply Sound.closeFinish
    · cases hs.stage with
      | quiet _ habs | processed _ habs => exact absurd (hhandle.symm.trans habs) nofun
      | flagged habs => exact absurd habs hflagged
      | waiting hwait _ hpending hout hposts hcalls =>
        have hwaiting := hwait.resolve_right hcalled
        exact .quiet (if_pos hwaiting) rfl hpending hout hposts hcalls
      | posted hwait hpending hout hposts hcalls =>
        have hreturned := hwait.resolve_left fun habs => hposted habs.1
        have hne : s.wait ≠ .waiting := by simp [hreturned]
        exact .posted (.inr ((if_neg hne).trans hreturned)) hpending hout hposts hcalls
    · exact hclosing
    · rfl
    · exact hendgames
    · exact hqueued
    · exact hclosed
    · exact hs.calls

theorem unregisterWait_eq (hwait : s.wait ≠ .waiting) :
    (if s.waitHandle then s.unregisterWait else s) = { s with waitHandle := false } := by
  cases hhandle : s.waitHandle with
  | true => rw [if_pos rfl, unregisterWait, if_neg hwait]
  | false => rw [if_neg nofun, ← hhandle]

theorem Stage.of_outstanding (h : Stage s) (hout : 0 < s.outstanding) :
    (s.wait = .posted ∨ s.wait = .returned) ∧ s.exitCbPending = true ∧ s.outstanding = 1 ∧
      s.posts = 1 ∧ s.calls = [] := by
  cases h with
  | posted hwait hpending hone hposts hcalls =>
    exact ⟨hwait.imp_left And.left, hpending, hone, hposts, hcalls⟩
  | quiet _ _ _ hzero | waiting _ _ _ hzero | flagged _ _ _ hzero | processed _ _ _ hzero =>
    exact absurd hzero (Nat.ne_of_gt hout)

theorem Sound.fireExitCb (hs : Sound s) (hmain : s.main = .idle) (hout : 0 < s.outstanding)
    (hclosing : s.closing = false) (err : Option ℤ) :
    Sound ({ s with outstanding := s.outstanding - 1, exitCbPending := false }.fireExitCb err) := by
  obtain ⟨hwait, -, hone, hposts, hcalls⟩ := hs.stage.of_outstanding hout
  have hopen := hs.opened hclosing
  have hzero : s.outstanding - 1 = 0 := by rw [hone]
  have hnot : s.wait ≠ .waiting := by
    intro habs
    rw [habs] at hwait
    exact hwait.elim nofun nofun
  have hunregister := unregisterWait_eq
    (s := { s with outstanding := s.outstanding - 1, exitCbPending := false }) hnot
  unfold ProcessExit.fireExitCb
  rw [hunregister]
  cases hcb : s.exitCb with
  | true =>
    rw [if_pos rfl]
    refine ⟨?_, nofun, fun _ => ?_, fun habs => absurd (hclosing.symm.trans habs) nofun, ?_⟩
    · refine .processed hwait rfl rfl hzero hposts ?_
      rw [hcalls]
      exact Nat.le_refl 1
    · exact { hopen with main := fun _ => nofun }
    · intro c hc
      rw [hcalls] at hc
      rw [List.mem_singleton.mp hc]
      exact hclosing
  | false =>
    rw [if_neg nofun]
    refine ⟨?_, ?_, fun _ => ?_, fun habs => absurd (hclosing.symm.trans habs) nofun, hs.calls⟩
    · refine .processed hwait rfl rfl hzero hposts ?_
      rw [hcalls]
      exact Nat.zero_le 1
    · exact fun habs => absurd (hmain.symm.trans habs) nofun
    · exact { hopen with }

theorem Sound.uvProcessProcExit (hs : Sound s) (hmain : s.main = .idle) (hout : 0 < s.outstanding)
    (err : Option ℤ) : ∃ t, s.uvProcessProcExit err = some t ∧ Sound t := by
  obtain ⟨hwait, hpending, hone, hposts, hcalls⟩ := hs.stage.of_outstanding hout
  have hclosed : s.closed ≠ true := fun habs =>
    absurd (hpending.symm.trans (hs.closed habs).2) nofun
  have hif : ¬(s.closed = true ∨ s.exitCbPending = false) := by simp [hclosed, hpending]
  refine ⟨_, if_neg hif, ?_⟩
  by_cases hclosing : s.closing = true
  · rw [if_pos hclosing]
    cases hs.ending hclosing with
    | unregistering _ habs => exact absurd (hmain.symm.trans habs) nofun
    | wanted _ _ habs => exact absurd (hpending.symm.trans habs) nofun
    | postponed hnot hhandle _ hendgames hqueued hnotClosed =>
      apply Sound.uvWantEndgame
      · refine .processed hwait hhandle rfl ?_ hposts ?_
        · exact congrArg (· - 1) hone
        · exact Nat.le_trans (Nat.le_of_eq (congrArg List.length hcalls)) (Nat.zero_le 1)
      · exact hnot
      · exact fun habs => absurd (hmain.symm.trans habs) nofun
      · exact hclosing
      · exact hhandle
      · rfl
      · exact hendgames
      · exact hqueued
      · exact hnotClosed
      · exact hs.calls
  · rw [if_neg hclosing]
    exact hs.fireExitCb hmain hout (eq_false_iff.mpr hclosing) err

theorem Sound.uvProcessEndgame (hs : Sound s) (hmain : s.main = .idle)
    (hqueued : s.endgameQueued = true) : ∃ t, s.uvProcessEndgame = some t ∧ Sound t := by
  have hclosing : s.closing = true := by
    cases hclosing : s.closing with
    | true => rfl
    | false => exact absurd ((hs.opened hclosing).endgameQueued.symm.trans hqueued) nofun
  cases hs.ending hclosing with
  | unregistering _ _ _ _ habs | postponed _ _ _ _ habs =>
    exact absurd (habs.symm.trans hqueued) nofun
  | wanted hnot hhandle hpending hendgames hiff =>
    have hclosed := hiff.mp hqueued
    have hend : s.uvProcessEndgame =
        some { s with endgameQueued := false, processHandle := false, closed := true } := by
      simp [ProcessExit.uvProcessEndgame, hclosing, hpending, hclosed]
    refine ⟨_, hend, hs.stage.congr rfl rfl rfl rfl rfl rfl, hs.spawning,
      fun habs => absurd (hclosing.symm.trans habs) nofun, fun _ => ?_, hs.calls⟩
    exact .wanted hnot hhandle hpending hendgames ⟨nofun, nofun⟩

theorem Sound.registerWait (hs : Sound s) (hmain : s.main = .spawning) : Sound s.registerWait := by
  obtain ⟨hwait, hclosing⟩ := hs.spawning hmain
  obtain ⟨hpending, hout, hposts, hcalls⟩ := hs.stage.of_unregistered hwait
  have hopen := hs.opened hclosing
  refine ⟨.waiting (.inl rfl) rfl hpending hout hposts hcalls, nofun, fun _ => ?_,
    fun habs => absurd (hclosing.symm.trans habs) nofun, hs.calls⟩
  exact { hopen with main := fun _ => nofun }

theorem Sound.next (hs : Sound s) {e : Event} (he : s.Enabled e) :
    ∃ t, s.next e = some t ∧ Sound t := by
  have hidle : ∀ {main : ProcessMain}, s.main = main → (∀ b, main ≠ .unregistering b) →
      Sound { s with main := .idle } := by
    rintro main rfl hnot
    exact hs.goOn hnot (fun _ => nofun) nofun
  cases e with
  | spawnFail => exact ⟨_, rfl, hidle he fun _ => nofun⟩
  | registerWait => exact ⟨_, rfl, hs.registerWait he⟩
  | handleStart =>
    refine ⟨_, rfl, hs.goOn (fun b => ?_) (fun _ => nofun) nofun⟩
    rw [show s.main = .registered from he]
    nofun
  | kill signum err =>
    refine ⟨_, rfl, ?_⟩
    unfold uvProcessKill
    split
    · exact hs
    · have hkept : s.main ≠ .spawning ∧ ∀ b, s.main ≠ .unregistering b := by
        rcases he.1 with hmain | hmain <;> simp [hmain]
      exact hs.goOn hkept.2 hkept.2 hkept.1
  | exit status =>
    refine ⟨_, rfl, ?_⟩
    apply hs.other
    · exact hs.stage.congr rfl rfl rfl rfl rfl rfl
    · exact fun hmain => (hs.spawning hmain).1
    · exact fun _ => rfl
  | waitBegin => exact ⟨_, rfl, hs.waitBegin he.1⟩
  | waitFlag => exact hs.waitFlag he
  | waitPost => exact hs.waitPost he
  | waitReturn => exact ⟨_, rfl, hs.waitReturn he⟩
  | procExit err => exact hs.uvProcessProcExit he.1 he.2 err
  | exitCbReturn => exact ⟨_, rfl, hidle he fun _ => nofun⟩
  | close => exact ⟨_, rfl, hs.uvProcessClose he.1 he.2⟩
  | unregistered =>
    obtain ⟨⟨inExitCb, hmain⟩, hcalled, hflagged, hposted⟩ := he
    exact hs.unregisterWaitEx hmain hcalled hflagged hposted
  | endgame => exact hs.uvProcessEndgame he.1 he.2

theorem Sound.of_reachable (h : Reachable (fun s => ∃ exitCb, s = init exitCb) Step s) :
    Sound s := by
  apply h.invariant_of_next
  · rintro _ ⟨exitCb, rfl⟩
    exact sound_init exitCb
  · exact fun s e hs he => hs.next he

/-! ## Whole runs -/

/-- Every enabled event is possible, so the assertions hold and no thread uses a handle that is
closed. The exit callback is called once at most, and not after the close; the exit request is
posted once at most. The endgame is queued once when the handle is closed, as soon as no exit
request is outstanding. -/
structure Orderly (s : ProcessExit) : Prop where
  possible : ∀ e, s.Enabled e → (s.next e).isSome = true
  calls : s.calls.length ≤ 1 ∧ ∀ c ∈ s.calls, c.closing = false
  posts : s.posts ≤ 1
  endgames : s.endgames = if s.closing = true ∧ s.outstanding = 0 ∧
    s.main ≠ .unregistering false ∧ s.main ≠ .unregistering true then [false] else []

theorem uvProcess_orderly (h : Reachable (fun s => ∃ exitCb, s = init exitCb) Step s) :
    s.Orderly := by
  have hs := Sound.of_reachable h
  refine ⟨fun e he => ?_, ⟨hs.stage.bounds.1, hs.calls⟩, hs.stage.bounds.2, ?_⟩
  · obtain ⟨t, ht, -⟩ := hs.next he
    rw [ht]
    rfl
  · cases hclosing : s.closing with
    | false =>
      rw [(hs.opened hclosing).endgames, if_neg fun habs => absurd habs.1 nofun]
    | true =>
      cases hs.ending hclosing with
      | unregistering inExitCb hmain _ hendgames =>
        rw [hendgames, hmain, if_neg]
        rintro ⟨-, -, hfalse, htrue⟩
        cases inExitCb with
        | false => exact hfalse rfl
        | true => exact htrue rfl
      | postponed _ hhandle hpending hendgames =>
        have hout := hs.stage.outstanding_eq hhandle
        rw [hpending, if_pos rfl] at hout
        rw [hendgames, hout, if_neg fun habs => absurd habs.2.1 nofun]
      | wanted hmain hhandle hpending hendgames =>
        have hout := hs.stage.outstanding_eq hhandle
        rw [hpending, if_neg nofun] at hout
        rw [hendgames, if_pos ⟨rfl, hout, hmain false, hmain true⟩]

/-- The child exits, and the handle is closed while the callback of the wait runs. -/
def closedRun : Option ProcessExit :=
  [Event.registerWait, .handleStart, .exit 0, .waitBegin, .close, .waitFlag, .waitPost,
    .waitReturn, .unregistered, .procExit none, .endgame].foldlM step (init true)

theorem closedRun_isSome : closedRun.isSome = true := by
  rfl

theorem uvProcess_orderly_closed : (closedRun.get closedRun_isSome).posts ≤ 1 := by
  have hrun : Reachable (fun s => ∃ exitCb, s = init exitCb) Step
      (closedRun.get closedRun_isSome) :=
    .of_foldlM (.init ⟨_, rfl⟩) (Option.some_get closedRun_isSome).symm
  exact (uvProcess_orderly hrun).posts

end ProcessExit

end LibuvWorks.Win
