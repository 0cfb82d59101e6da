import LibuvWorks.Handle
import Mathlib.Data.List.Basic

/-!
# Failing to start a poll

The start of a poll allocates a context, which has a timer and a request in it. Both are linked in
the queues of the loop before the last call that may fail. The contexts are numbered in the order in
which they are allocated, and one that is freed is no longer in memory.
-/

namespace LibuvWorks.Unix.FsPollStart

open List

/-- A member of a queue of the loop: one in the memory of the user, or the timer or the request of a
context -/
inductive QueueMember (α : Type*) where
  | user (x : α) : QueueMember α
  | ofCtx (c : ℕ) : QueueMember α
  deriving DecidableEq

structure HandleFlags where
  ref : Bool
  active : Bool
  closing : Bool
  internal : Bool

/-- `struct poll_ctx`, with the path in `fs_req` -/
structure StartCtx (ι : Type*) where
  parentHandle : ι
  interval : ℕ
  startTime : ℕ
  pollCb : ℕ
  path : List UInt8
  timer : HandleFlags
  reqPath : Option (List UInt8)

/-- `uv_fs_poll_t` -/
structure FsPollHandle where
  flags : HandleFlags
  pollCtx : Option ℕ

/-- A loop with the handles of type `ι` that poll and the requests of type `ρ`. `work` are the
contexts whose requests were submitted to the pool. -/
structure StartLoop (ι ρ : Type*) where
  time : ℕ
  handleQueue : List (QueueMember ι)
  activeHandles : ℕ
  activeReqs : List (QueueMember ρ)
  work : List ℕ
  polls : ι → FsPollHandle
  ctxs : ℕ → Option (StartCtx ι)
  allocated : ℕ

namespace StartLoop

variable {ι ρ : Type*} [DecidableEq ι] [DecidableEq ρ] (s : StartLoop ι ρ)

def enomem : ℤ := -12

def setCtx (c : ℕ) (x : Option (StartCtx ι)) : StartLoop ι ρ :=
  { s with ctxs := Function.update s.ctxs c x }

/-- `uv_timer_init` for the timer of a context; it does not fail. -/
def uvTimerInit (c : ℕ) (x : StartCtx ι) : ℤ × StartCtx ι × StartLoop ι ρ :=
  (0, { x with timer := { x.timer with ref := true } },
    { s with handleQueue := s.handleQueue ++ [.ofCtx c] })

/-- `uv__handle_unref` of the timer of a context -/
def uvHandleUnref (x : StartCtx ι) : StartCtx ι × StartLoop ι ρ :=
  if x.timer.ref = false then (x, s)
  else
    ({ x with timer := { x.timer with ref := false } },
      if x.timer.closing = false ∧ x.timer.active = true then
        { s with activeHandles := s.activeHandles - 1 }
      else s)

/-- `uv_fs_stat` with a callback; `copied` says whether `uv__strdup` has memory for the path. The
request is registered when it comes to that, so that the assertion in `uv__req_unregister` holds. -/
def uvFsStat (c : ℕ) (x : StartCtx ι) (copied : Bool) : ℤ × StartCtx ι × StartLoop ι ρ :=
  let s : StartLoop ι ρ := { s with activeReqs := s.activeReqs ++ [.ofCtx c] }
  if copied then (0, { x with reqPath := some x.path }, { s with work := s.work ++ [c] })
  else (enomem, { x with reqPath := none }, { s with activeReqs := s.activeReqs.erase (.ofCtx c) })

/-- `uv__handle_start` of a poll -/
def uvHandleStart (h : ι) (handle : FsPollHandle) : StartLoop ι ρ :=
  if handle.flags.active then { s with polls := Function.update s.polls h handle }
  else
    { s with
      polls := Function.update s.polls h
        { handle with flags := { handle.flags with active := true } }
      activeHandles := if handle.flags.ref then s.activeHandles + 1 else s.activeHandles }

/-- `uv_fs_poll_start`. `allocates` says whether `uv__calloc` has memory for the context. -/
def uvFsPollStart (h : ι) (cb : ℕ) (path : List UInt8) (interval : ℕ) (allocates copied : Bool) :
    ℤ × StartLoop ι ρ :=
  if (s.polls h).flags.active then (0, s)
  else if allocates = false then (enomem, s)
  else
    let c := s.allocated
    let x : StartCtx ι :=
      { parentHandle := h
        interval := if interval = 0 then 1 else interval
        startTime := s.time
        pollCb := cb
        path
        timer := ⟨false, false, false, false⟩
        reqPath := none }
    let s : StartLoop ι ρ := { s with allocated := s.allocated + 1 }
    let r := s.uvTimerInit c x
    if r.1 < 0 then (r.1, r.2.2.setCtx c none)
    else
      let x : StartCtx ι := { r.2.1 with timer := { r.2.1.timer with internal := true } }
      let u := r.2.2.uvHandleUnref x
      let r := u.2.uvFsStat c u.1 copied
      if r.1 < 0 then (r.1, r.2.2.setCtx c none)
      else
        let s := r.2.2.setCtx c (some r.2.1)
        (0, s.uvHandleStart h { s.polls h with pollCtx := some c })

structure Linked (s : StartLoop ι ρ) : Prop where
  handles : ∀ c, .ofCtx c ∈ s.handleQueue → s.ctxs c ≠ none
  reqs : ∀ c, .ofCtx c ∈ s.activeReqs → s.ctxs c ≠ none

structure Sound (s : StartLoop ι ρ) : Prop where
  linked : s.Linked
  allocated : ∀ c, s.ctxs c ≠ none → c < s.allocated

/-- The queues and counts of the loop and the handles are the same, and what is linked is in
memory. -/
structure Unchanged (s t : StartLoop ι ρ) : Prop where
  handleQueue : t.handleQueue = s.handleQueue
  activeHandles : t.activeHandles = s.activeHandles
  activeReqs : t.activeReqs = s.activeReqs
  polls : t.polls = s.polls
  linked : t.Linked

variable {s} {h : ι} {cb interval : ℕ} {path : List UInt8} {allocates copied : Bool}

theorem uvFsPollStart_active (hactive : (s.polls h).flags.active = true) :
    s.uvFsPollStart h cb path interval allocates copied = (0, s) := by
  rw [uvFsPollStart, if_pos hactive]

theorem uvFsPollStart_unallocated (hactive : (s.polls h).flags.active = false) :
    s.uvFsPollStart h cb path interval false copied = (enomem, s) := by
  rw [uvFsPollStart, if_neg (by simp [hactive]), if_pos rfl]

theorem uvFsPollStart_copied (hactive : (s.polls h).flags.active = false) :
    (s.uvFsPollStart h cb path interval true true).1 = 0 := by
  rw [uvFsPollStart, if_neg (by simp [hactive])]
  rfl

theorem enomem_ne_zero : enomem ≠ 0 := by decide

theorem Sound.not_linked (hs : s.Sound) : QueueMember.ofCtx s.allocated ∉ s.activeReqs :=
  fun hmem => Nat.lt_irrefl _ (hs.allocated _ (hs.linked.reqs _ hmem))

/-- When the path is not copied, the timer of the context stays in the queue of the handles. -/
theorem Sound.uvFsPollStart_uncopied (hs : s.Sound)
    (hactive : (s.polls h).flags.active = false) :
    s.uvFsPollStart h cb path interval true false =
      (enomem, { s with
        handleQueue := s.handleQueue ++ [.ofCtx s.allocated]
        ctxs := Function.update s.ctxs s.allocated none
        allocated := s.allocated + 1 }) := by
  have herase : (s.activeReqs ++ [QueueMember.ofCtx s.allocated]).erase
      (QueueMember.ofCtx s.allocated) = s.activeReqs := by
    rw [erase_append_right _ hs.not_linked, erase_cons_head, append_nil]
  have hstart : s.uvFsPollStart h cb path interval true false =
      (enomem, { s with
        handleQueue := s.handleQueue ++ [QueueMember.ofCtx s.allocated]
        activeReqs := (s.activeReqs ++ [QueueMember.ofCtx s.allocated]).erase (.ofCtx s.allocated)
        ctxs := Function.update s.ctxs s.allocated none
        allocated := s.allocated + 1 }) := by
    rw [uvFsPollStart, if_neg (by simp [hactive])]
    rfl
  rw [hstart, herase]

/-- A start that fails changes nothing, unless it is the copy of the path that fails. -/
theorem uvFsPollStart_unchanged_iff (hs : s.Sound) :
    ((s.uvFsPollStart h cb path interval allocates copied).1 ≠ 0 →
        Unchanged s (s.uvFsPollStart h cb path interval allocates copied).2) ↔
      ((s.polls h).flags.active = false → allocates = true → copied = true) := by
  cases hactive : (s.polls h).flags.active with
  | true =>
    rw [uvFsPollStart_active hactive]
    exact iff_of_true (absurd rfl) nofun
  | false =>
    cases allocates with
    | false =>
      rw [uvFsPollStart_unallocated hactive]
      exact iff_of_true (fun _ => ⟨rfl, rfl, rfl, rfl, hs.linked⟩) fun _ => nofun
    | true =>
      cases copied with
      | true => exact iff_of_true (absurd (uvFsPollStart_copied hactive)) fun _ _ => rfl
      | false =>
        rw [hs.uvFsPollStart_uncopied hactive]
        refine iff_of_false (fun hkeeps => ?_) fun habs => nomatch habs rfl rfl
        have hqueue := congrArg List.length (hkeeps enomem_ne_zero).handleQueue
        rw [List.length_append] at hqueue
        exact absurd hqueue (by simp)

/-- A loop with one handle, which does not poll -/
def oneHandle : StartLoop Unit Unit where
  time := 0
  handleQueue := [.user ()]
  activeHandles := 0
  activeReqs := []
  work := []
  polls _ := ⟨⟨true, false, false, false⟩, none⟩
  ctxs _ := none
  allocated := 0

theorem sound_oneHandle : oneHandle.Sound where
  linked := ⟨fun _ hmem => (nomatch mem_singleton.mp hmem), fun _ => nofun⟩
  allocated _ habs := absurd rfl habs

theorem uvFsPollStart_unchanged_oneHandle :
    (oneHandle.uvFsPollStart () 1 [47] 0 false true).1 ≠ 0 ∧
      Unchanged oneHandle (oneHandle.uvFsPollStart () 1 [47] 0 false true).2 := by
  have hfails : (oneHandle.uvFsPollStart () 1 [47] 0 false true).1 ≠ 0 := by decide
  exact ⟨hfails, (uvFsPollStart_unchanged_iff sound_oneHandle).mpr (fun _ => nofun) hfails⟩

/-- The timer that is left in the queue is in memory that was freed. -/
theorem not_uvFsPollStart_unchanged :
    (oneHandle.uvFsPollStart () 1 [47] 0 true false).1 ≠ 0 ∧
      (oneHandle.uvFsPollStart () 1 [47] 0 true false).2.handleQueue = [.user (), .ofCtx 0] ∧
      ¬(oneHandle.uvFsPollStart () 1 [47] 0 true false).2.Linked ∧
      ¬Unchanged oneHandle (oneHandle.uvFsPollStart () 1 [47] 0 true false).2 := by
  have hfreed : ¬(oneHandle.uvFsPollStart () 1 [47] 0 true false).2.Linked := fun hlinked =>
    hlinked.handles 0 (by decide) rfl
  exact ⟨by decide, by decide, hfreed, fun hsame => hfreed hsame.linked⟩

end StartLoop

end LibuvWorks.Unix.FsPollStart
