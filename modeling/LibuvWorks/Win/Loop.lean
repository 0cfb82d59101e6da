import LibuvWorks.Handle
import Mathlib.Tactic.Common

/-!
# The state of a Windows event loop

`UvLoop` is the part of the Windows `uv_loop_t` that the phases of `uv_run` read
and write, with the memory of its handles. The red-black tree of the timers is
the list of its nodes in order, the intrusive lists are lists.
-/
namespace LibuvWorks.Win

/-- The bits of `handle->flags` shared by all handle types. -/
structure HandleFlags where
  active : Bool
  ref : Bool
  closing : Bool
  closed : Bool
  endgameQueued : Bool

/-- The private fields of `uv_timer_t`. -/
structure UvTimer (γ : Type*) where
  timerCb : Option γ
  due : UInt64
  repeatMs : UInt64
  startId : UInt64

/-- `pendingReqs` is the ring of `pending_reqs_tail` from its first request on. -/
structure UvLoop (ι γ : Type*) where
  time : UInt64
  stopFlag : Bool
  activeHandles : UInt32
  activeReqs : ℕ
  endgameHandles : List (Handle ι)
  pendingReqs : List ι
  watcherHandles : WatcherKind → List ι
  nextWatcher : WatcherKind → Option ι
  timers : List ι
  timerCounter : UInt64
  flags : Handle ι → HandleFlags
  timer : ι → UvTimer γ
  watcherCb : WatcherKind → ι → Option γ
  closeCb : Handle ι → Option γ
  reqsPending : ι → ℕ

namespace UvLoop

variable {ι γ : Type*} [DecidableEq ι] (l : UvLoop ι γ)

def setFlags (h : Handle ι) (v : HandleFlags) : UvLoop ι γ :=
  { l with flags := Function.update l.flags h v }

def setTimer (t : ι) (v : UvTimer γ) : UvLoop ι γ :=
  { l with timer := Function.update l.timer t v }

@[simp] theorem setFlags_flags (h : Handle ι) (v : HandleFlags) :
    (l.setFlags h v).flags = Function.update l.flags h v := rfl

end UvLoop

variable {ι γ : Type*} [DecidableEq ι]

/-! ## The macros of `uv-common.h` and `win/handle-inl.h` -/

def uvIsActive (l : UvLoop ι γ) (h : Handle ι) : Bool := (l.flags h).active

def uvHandleStart (l : UvLoop ι γ) (h : Handle ι) : Except Fault (UvLoop ι γ) :=
  if (l.flags h).closing then .error .assertion
  else if (l.flags h).active then .ok l
  else
    let l := l.setFlags h { l.flags h with active := true }
    .ok (if (l.flags h).ref then { l with activeHandles := l.activeHandles + 1 } else l)

def uvHandleStop (l : UvLoop ι γ) (h : Handle ι) : Except Fault (UvLoop ι γ) :=
  if (l.flags h).closing then .error .assertion
  else if (l.flags h).active = false then .ok l
  else
    let l := l.setFlags h { l.flags h with active := false }
    .ok (if (l.flags h).ref then { l with activeHandles := l.activeHandles - 1 } else l)

def uvHandleRef (l : UvLoop ι γ) (h : Handle ι) : UvLoop ι γ :=
  if (l.flags h).ref then l
  else
    let l := l.setFlags h { l.flags h with ref := true }
    if (l.flags h).closing then l
    else if (l.flags h).active then { l with activeHandles := l.activeHandles + 1 } else l

def uvHandleUnref (l : UvLoop ι γ) (h : Handle ι) : UvLoop ι γ :=
  if (l.flags h).ref = false then l
  else
    let l := l.setFlags h { l.flags h with ref := false }
    if (l.flags h).closing then l
    else if (l.flags h).active then { l with activeHandles := l.activeHandles - 1 } else l

def uvHandleClosing (l : UvLoop ι γ) (h : Handle ι) : Except Fault (UvLoop ι γ) :=
  if (l.flags h).closing then .error .assertion
  else
    let l := if ¬ ((l.flags h).active ∧ (l.flags h).ref) then
        { l with activeHandles := l.activeHandles + 1 } else l
    .ok (l.setFlags h { l.flags h with closing := true, active := false })

def uvWantEndgame (l : UvLoop ι γ) (h : Handle ι) : UvLoop ι γ :=
  if (l.flags h).endgameQueued then l
  else
    let l := l.setFlags h { l.flags h with endgameQueued := true }
    { l with endgameHandles := h :: l.endgameHandles }

/-- What a macro that is applied to `h` may change. -/
structure OnlyFlags (h : Handle ι) (l l' : UvLoop ι γ) : Prop where
  rest : ∃ n f, l' = { l with activeHandles := n, flags := f }
  flags : ∀ k, k ≠ h → l'.flags k = l.flags k

variable {l l' : UvLoop ι γ} {h : Handle ι}

omit [DecidableEq ι] in
theorem onlyFlags_refl : OnlyFlags h l l := ⟨⟨_, _, rfl⟩, fun _ _ => rfl⟩

theorem onlyFlags_setFlags {v : HandleFlags} {n : UInt32} :
    OnlyFlags h l { l.setFlags h v with activeHandles := n } :=
  ⟨⟨_, _, rfl⟩, fun _ hk => Function.update_of_ne hk ..⟩

theorem uvHandleStart_only (hrun : uvHandleStart l h = .ok l') :
    OnlyFlags h l l' ∧ (l'.flags h).active = true := by
  unfold uvHandleStart at hrun
  dsimp only at hrun
  split_ifs at hrun with h1 h2 h3 <;> cases hrun
  · exact ⟨onlyFlags_refl, h2⟩
  · exact ⟨onlyFlags_setFlags, by simp⟩
  · exact ⟨onlyFlags_setFlags, by simp⟩

theorem uvHandleStop_only (hrun : uvHandleStop l h = .ok l') :
    OnlyFlags h l l' ∧ (l'.flags h).active = false := by
  unfold uvHandleStop at hrun
  dsimp only at hrun
  split_ifs at hrun with h1 h2 h3 <;> cases hrun
  · exact ⟨onlyFlags_refl, h2⟩
  · exact ⟨onlyFlags_setFlags, by simp⟩
  · exact ⟨onlyFlags_setFlags, by simp⟩

theorem uvHandleRef_only :
    OnlyFlags h l (uvHandleRef l h) ∧ ((uvHandleRef l h).flags h).active = (l.flags h).active := by
  unfold uvHandleRef
  dsimp only
  split_ifs
  · exact ⟨onlyFlags_refl, rfl⟩
  · exact ⟨onlyFlags_setFlags, by simp⟩
  · exact ⟨onlyFlags_setFlags, by simp⟩
  · exact ⟨onlyFlags_setFlags, by simp⟩

theorem uvHandleUnref_only : OnlyFlags h l (uvHandleUnref l h) ∧
    ((uvHandleUnref l h).flags h).active = (l.flags h).active := by
  unfold uvHandleUnref
  dsimp only
  split_ifs
  · exact ⟨onlyFlags_refl, rfl⟩
  · exact ⟨onlyFlags_setFlags, by simp⟩
  · exact ⟨onlyFlags_setFlags, by simp⟩
  · exact ⟨onlyFlags_setFlags, by simp⟩

theorem uvHandleClosing_only (hrun : uvHandleClosing l h = .ok l') :
    OnlyFlags h l l' ∧ (l'.flags h).active = false := by
  unfold uvHandleClosing at hrun
  dsimp only at hrun
  split_ifs at hrun <;> cases hrun
  · exact ⟨onlyFlags_setFlags, by simp⟩
  · exact ⟨onlyFlags_setFlags, by simp⟩

end LibuvWorks.Win
