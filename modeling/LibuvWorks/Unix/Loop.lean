import LibuvWorks.Handle
import LibuvWorks.Heap.HeapInl

/-!
# The state of a unix event loop

`UvLoop` is the part of `uv_loop_t` that the phases of `uv_run` read and write,
with the memory of the handles it points to; `γ` are the callback pointers.
-/
namespace LibuvWorks.Unix

/-- The bits of `handle->flags` shared by all handle types. -/
structure HandleFlags where
  active : Bool
  ref : Bool
  closing : Bool
  closed : Bool

/-- The private fields of `uv_timer_t`. -/
structure UvTimer (γ : Type*) where
  timerCb : Option γ
  timeout : UInt64
  repeatMs : UInt64
  startId : UInt64

/-- `watcherRun` and `pendingRun` are the local queues of `uv__run_idle` and its
siblings and of `uv__run_pending`: a callback can unlink a member of these, too. -/
structure UvLoop (ι γ : Type*) where
  time : UInt64
  stopFlag : Bool
  activeHandles : UInt32
  activeReqs : ℕ
  closingHandles : List (Handle ι)
  watcherHandles : WatcherKind → List ι
  watcherRun : WatcherKind → List ι
  pendingQueue : List ι
  pendingRun : List ι
  timerHeap : Heap ι
  timerCounter : UInt64
  flags : Handle ι → HandleFlags
  timer : ι → UvTimer γ
  watcherCb : WatcherKind → ι → Option γ
  closeCb : Handle ι → Option γ

namespace UvLoop

variable {ι γ : Type*} [DecidableEq ι] (l : UvLoop ι γ)

def setFlags (h : Handle ι) (v : HandleFlags) : UvLoop ι γ :=
  { l with flags := Function.update l.flags h v }

def setTimer (t : ι) (v : UvTimer γ) : UvLoop ι γ :=
  { l with timer := Function.update l.timer t v }

@[simp] theorem setFlags_flags (h : Handle ι) (v : HandleFlags) :
    (l.setFlags h v).flags = Function.update l.flags h v := rfl

end UvLoop

variable {ι γ : Type*} [DecidableEq ι]

/-! ## The macros of `uv-common.h` -/

def uvIsActive (l : UvLoop ι γ) (h : Handle ι) : Bool := (l.flags h).active

/-- `UV__HANDLE_CLOSING` is `0` on unix: the assertion of the macro always holds. -/
def uvHandleStart (l : UvLoop ι γ) (h : Handle ι) : UvLoop ι γ :=
  if (l.flags h).active then l
  else
    let l := l.setFlags h { l.flags h with active := true }
    if (l.flags h).ref then { l with activeHandles := l.activeHandles + 1 } else l

def uvHandleStop (l : UvLoop ι γ) (h : Handle ι) : UvLoop ι γ :=
  if (l.flags h).active = false then l
  else
    let l := l.setFlags h { l.flags h with active := false }
    if (l.flags h).ref then { l with activeHandles := l.activeHandles - 1 } else l

def uvHandleRef (l : UvLoop ι γ) (h : Handle ι) : UvLoop ι γ :=
  if (l.flags h).ref then l
  else
    let l := l.setFlags h { l.flags h with ref := true }
    if (l.flags h).active then { l with activeHandles := l.activeHandles + 1 } else l

def uvHandleUnref (l : UvLoop ι γ) (h : Handle ι) : UvLoop ι γ :=
  if (l.flags h).ref = false then l
  else
    let l := l.setFlags h { l.flags h with ref := false }
    if (l.flags h).active then { l with activeHandles := l.activeHandles - 1 } else l

/-- What starting, stopping, referencing or unreferencing `h` may change: the flags
`active` and `ref` of `h`, and the count of active handles. -/
structure OnlyFlags (h : Handle ι) (l l' : UvLoop ι γ) : Prop where
  rest : ∃ n f, l' = { l with activeHandles := n, flags := f }
  flags : ∀ k, k ≠ h → l'.flags k = l.flags k
  closing : (l'.flags h).closing = (l.flags h).closing
  closed : (l'.flags h).closed = (l.flags h).closed

variable {l : UvLoop ι γ} {h : Handle ι}

omit [DecidableEq ι] in
theorem onlyFlags_refl : OnlyFlags h l l := ⟨⟨_, _, rfl⟩, fun _ _ => rfl, rfl, rfl⟩

theorem onlyFlags_setFlags {v : HandleFlags} {n : UInt32}
    (hclosing : v.closing = (l.flags h).closing)
    (hclosed : v.closed = (l.flags h).closed) :
    OnlyFlags h l { l.setFlags h v with activeHandles := n } :=
  ⟨⟨_, _, rfl⟩, fun _ hk => Function.update_of_ne hk .., by simpa using hclosing,
    by simpa using hclosed⟩

theorem uvHandleStart_only : OnlyFlags h l (uvHandleStart l h) := by
  unfold uvHandleStart
  dsimp only
  split_ifs
  · exact onlyFlags_refl
  · exact onlyFlags_setFlags rfl rfl
  · exact onlyFlags_setFlags rfl rfl

theorem uvHandleStop_only : OnlyFlags h l (uvHandleStop l h) := by
  unfold uvHandleStop
  dsimp only
  split_ifs
  · exact onlyFlags_refl
  · exact onlyFlags_setFlags rfl rfl
  · exact onlyFlags_setFlags rfl rfl

theorem uvHandleRef_only : OnlyFlags h l (uvHandleRef l h) := by
  unfold uvHandleRef
  dsimp only
  split_ifs
  · exact onlyFlags_refl
  · exact onlyFlags_setFlags rfl rfl
  · exact onlyFlags_setFlags rfl rfl

theorem uvHandleUnref_only : OnlyFlags h l (uvHandleUnref l h) := by
  unfold uvHandleUnref
  dsimp only
  split_ifs
  · exact onlyFlags_refl
  · exact onlyFlags_setFlags rfl rfl
  · exact onlyFlags_setFlags rfl rfl

@[simp] theorem uvHandleStart_active : ((uvHandleStart l h).flags h).active = true := by
  unfold uvHandleStart
  dsimp only
  split_ifs with ha <;> simp [ha]

@[simp] theorem uvHandleStop_active : ((uvHandleStop l h).flags h).active = false := by
  unfold uvHandleStop
  dsimp only
  split_ifs with ha <;> simp [ha]

@[simp] theorem uvHandleRef_active :
    ((uvHandleRef l h).flags h).active = (l.flags h).active := by
  unfold uvHandleRef
  dsimp only
  split_ifs <;> simp

@[simp] theorem uvHandleUnref_active :
    ((uvHandleUnref l h).flags h).active = (l.flags h).active := by
  unfold uvHandleUnref
  dsimp only
  split_ifs <;> simp

end LibuvWorks.Unix
