import LibuvWorks.Lib.Tally
import LibuvWorks.Unix.Run

/-!
# The count of active handles on unix

`HandleSet` is a loop with the handles that are in its `handle_queue`. The events are
the macros of `uv-common.h` and the steps of closing a handle, in any order; what calls
them is left open.
-/
namespace LibuvWorks.Unix

open Transition Tally Function

@[simp] theorem UvLoop.setFlags_activeHandles {ι γ : Type*} [DecidableEq ι] (l : UvLoop ι γ)
    (h : Handle ι) (v : HandleFlags) : (l.setFlags h v).activeHandles = l.activeHandles := rfl

/-- The handle counts for `active_handles`. -/
def HandleFlags.counted (f : HandleFlags) : Bool := f.active && f.ref

/-- `closingRun` is the local list of `uv__run_closing_handles`, and `finishing` the handle
whose `uv__finish_close` has begun. -/
structure HandleSet (ι γ : Type*) where
  loop : UvLoop ι γ
  handleQueue : Finset (Handle ι)
  closingRun : List (Handle ι)
  finishing : Option (Handle ι)

namespace HandleSet

variable {ι γ : Type*} [DecidableEq ι]

def apply (s : HandleSet ι γ) (h : Handle ι) (f : UvLoop ι γ → Handle ι → UvLoop ι γ) :
    Option (HandleSet ι γ) :=
  if h ∈ s.handleQueue then some { s with loop := f s.loop h } else none

inductive Event (ι γ : Type*) where
  /-- `uv__handle_init` -/
  | init : Handle ι → Event ι γ
  | start : Handle ι → Event ι γ
  | stop : Handle ι → Event ι γ
  | ref : Handle ι → Event ι γ
  | unref : Handle ι → Event ι γ
  /-- `uv_close`, before the `switch` on the type of the handle. -/
  | close : Handle ι → Option γ → Event ι γ
  | makeClosePending : Handle ι → Event ι γ
  /-- `uv__run_closing_handles` takes the list. -/
  | runClosing : Event ι γ
  /-- `uv__finish_close`, up to the callbacks of what was pending. -/
  | finishClose : Event ι γ
  /-- The rest of it, up to the close callback. -/
  | finished : Event ι γ
  | reqRegister : Event ι γ
  | reqUnregister : Event ι γ

/-- An `assert` that fails ends the program: there is no next state. -/
def step (s : HandleSet ι γ) : Event ι γ → Option (HandleSet ι γ)
  | .init h =>
    if h ∈ s.handleQueue then none
    else some { s with
      loop := s.loop.setFlags h { active := false, ref := true, closing := false, closed := false }
      handleQueue := insert h s.handleQueue }
  | .start h => s.apply h uvHandleStart
  | .stop h => s.apply h uvHandleStop
  | .ref h => s.apply h uvHandleRef
  | .unref h => s.apply h uvHandleUnref
  | .close h closeCb =>
    if (s.loop.flags h).closing ∨ (s.loop.flags h).closed then none
    else s.apply h fun l h => l.markClosing h closeCb
  | .makeClosePending h => (uvMakeClosePending s.loop h).toOption.map fun l => { s with loop := l }
  | .runClosing =>
    if s.closingRun = [] ∧ s.finishing = none then
      some { s with
        closingRun := s.loop.closingHandles
        loop := { s.loop with closingHandles := [] } }
    else none
  | .finishClose =>
    match s.closingRun, s.finishing with
    | h :: rest, none =>
      if (s.loop.flags h).closing = true ∧ (s.loop.flags h).closed = false then
        some { s with
          loop := s.loop.setFlags h { s.loop.flags h with closed := true }
          closingRun := rest
          finishing := some h }
      else none
    | _, _ => none
  | .finished =>
    match s.finishing with
    | some h =>
      some { s with
        loop := uvHandleUnref s.loop h
        handleQueue := s.handleQueue.erase h
        finishing := none }
    | none => none
  | .reqRegister => some { s with loop := uvReqRegister s.loop }
  | .reqUnregister => (uvReqUnregister s.loop).toOption.map fun l => { s with loop := l }

def Init (s : HandleSet ι γ) : Prop :=
  s.handleQueue = ∅ ∧ s.loop.activeHandles = 0 ∧ s.finishing = none ∧
    ∀ h, (s.loop.flags h).closing = false

def Step (s : HandleSet ι γ) (e : Event ι γ) (t : HandleSet ι γ) : Prop := step s e = some t

/-! ### What a macro does to the count -/

variable {l l' : UvLoop ι γ} {h : Handle ι}

/-- The count is adjusted by what changes for `h`. -/
def Adjusts (h : Handle ι) (l l' : UvLoop ι γ) : Prop :=
  l'.activeHandles + UInt32.ofNat (l.flags h).counted.toNat =
    l.activeHandles + UInt32.ofNat (l'.flags h).counted.toNat

theorem uvHandleStart_adjusts : Adjusts h l (uvHandleStart l h) := by
  unfold Adjusts uvHandleStart
  cases hactive : (l.flags h).active <;> cases href : (l.flags h).ref <;>
    simp [HandleFlags.counted, hactive, href]

theorem uvHandleStop_adjusts : Adjusts h l (uvHandleStop l h) := by
  unfold Adjusts uvHandleStop
  cases hactive : (l.flags h).active <;> cases href : (l.flags h).ref <;>
    simp [HandleFlags.counted, hactive, href]

theorem uvHandleRef_adjusts : Adjusts h l (uvHandleRef l h) := by
  unfold Adjusts uvHandleRef
  cases hactive : (l.flags h).active <;> cases href : (l.flags h).ref <;>
    simp [HandleFlags.counted, hactive, href]

theorem uvHandleUnref_adjusts : Adjusts h l (uvHandleUnref l h) := by
  unfold Adjusts uvHandleUnref
  cases hactive : (l.flags h).active <;> cases href : (l.flags h).ref <;>
    simp [HandleFlags.counted, hactive, href]

theorem uvHandleUnref_counted : ((uvHandleUnref l h).flags h).counted = false := by
  unfold uvHandleUnref HandleFlags.counted
  dsimp only
  split_ifs with href <;> simp_all

/-! ### The count in every state -/

def activeRefs (s : HandleSet ι γ) : Finset (Handle ι) :=
  s.handleQueue.filter fun h => (s.loop.flags h).counted = true

/-- The count agrees with the flags. A handle that is closing and not yet closed, or
whose close is being finished, is in the queue. -/
structure Counted (s : HandleSet ι γ) : Prop where
  tally : Tallies s.handleQueue (fun h => (s.loop.flags h).counted) s.loop.activeHandles
  closing : ∀ h, (s.loop.flags h).closing = true → (s.loop.flags h).closed = false →
    h ∈ s.handleQueue
  finishing : ∀ h, s.finishing = some h → h ∈ s.handleQueue ∧ (s.loop.flags h).closed = true

variable {s t : HandleSet ι γ} {f : UvLoop ι γ → Handle ι → UvLoop ι γ}

omit [DecidableEq ι] in
theorem Init.counted (hs : Init s) : Counted s where
  tally := by
    rw [hs.1, hs.2.1]
    rfl
  closing := by
    intro h habs
    rw [hs.2.2.2 h] at habs
    cases habs
  finishing := by
    intro h habs
    rw [hs.2.2.1] at habs
    cases habs

theorem Counted.apply (hs : Counted s) (honly : ∀ h, OnlyFlags h s.loop (f s.loop h))
    (hadj : ∀ h, Adjusts h s.loop (f s.loop h)) (hstep : s.apply h f = some t) : Counted t := by
  unfold HandleSet.apply at hstep
  split_ifs at hstep with hmem
  cases hstep
  have hflags : ∀ k, ((f s.loop h).flags k).closing = (s.loop.flags k).closing ∧
      ((f s.loop h).flags k).closed = (s.loop.flags k).closed := by
    intro k
    by_cases hk : k = h
    · rw [hk]
      exact ⟨(honly h).closing, (honly h).closed⟩
    · rw [(honly h).flags k hk]
      exact ⟨rfl, rfl⟩
  constructor
  · exact hs.tally.step hmem (fun k hk => congrArg _ ((honly h).flags k hk)) (hadj h)
  · intro k hclosing hclosed
    rw [(hflags k).1] at hclosing
    rw [(hflags k).2] at hclosed
    exact hs.closing k hclosing hclosed
  · intro k hk
    rw [(hflags k).2]
    exact hs.finishing k hk

omit [DecidableEq ι] in
theorem Counted.congr (hs : Counted s) (hflags : t.loop.flags = s.loop.flags)
    (hcount : t.loop.activeHandles = s.loop.activeHandles)
    (hqueue : t.handleQueue = s.handleQueue) (hfin : t.finishing = s.finishing) : Counted t where
  tally := by
    rw [hqueue, hcount, hflags]
    exact hs.tally
  closing := by
    rw [hqueue, hflags]
    exact hs.closing
  finishing := by
    rw [hqueue, hflags, hfin]
    exact hs.finishing

theorem Counted.init (hs : Counted s) (hnew : h ∉ s.handleQueue) : Counted { s with
    loop := s.loop.setFlags h { active := false, ref := true, closing := false, closed := false }
    handleQueue := insert h s.handleQueue } where
  tally := by
    apply hs.tally.insert _ hnew
    · simp [HandleFlags.counted]
    · intro k hk
      simp [hk]
  closing := by
    intro k hclosing hclosed
    by_cases hk : k = h
    · simp [hk]
    · rw [UvLoop.setFlags_flags, update_of_ne hk] at hclosing hclosed
      exact Finset.mem_insert_of_mem (hs.closing k hclosing hclosed)
  finishing := by
    intro k hk
    obtain ⟨hmem, hclosed⟩ := hs.finishing k hk
    have hne : k ≠ h := ne_of_mem_of_not_mem hmem hnew
    rw [UvLoop.setFlags_flags, update_of_ne hne]
    exact ⟨Finset.mem_insert_of_mem hmem, hclosed⟩

theorem Counted.close (hs : Counted s) {closeCb : Option γ} (hmem : h ∈ s.handleQueue) :
    Counted { s with loop := s.loop.markClosing h closeCb } where
  tally := by
    apply hs.tally.congr
    intro k
    by_cases hk : k = h <;> simp [UvLoop.markClosing, hk, HandleFlags.counted]
  closing := by
    intro k hclosing hclosed
    by_cases hk : k = h
    · rwa [hk]
    · simp only [UvLoop.markClosing, UvLoop.setFlags_flags, update_of_ne hk]
        at hclosing hclosed
      exact hs.closing k hclosing hclosed
  finishing := by
    intro k hk
    obtain ⟨hmem', hclosed⟩ := hs.finishing k hk
    refine ⟨hmem', ?_⟩
    by_cases hne : k = h
    · simp [UvLoop.markClosing, ← hne, hclosed]
    · simp [UvLoop.markClosing, hne, hclosed]

theorem Counted.finishClose (hs : Counted s) {rest : List (Handle ι)}
    (hclosing : (s.loop.flags h).closing = true) (hclosed : (s.loop.flags h).closed = false) :
    Counted { s with
      loop := s.loop.setFlags h { s.loop.flags h with closed := true }
      closingRun := rest
      finishing := some h } where
  tally := by
    apply hs.tally.congr
    intro k
    by_cases hk : k = h <;> simp [hk, HandleFlags.counted]
  closing := by
    intro k hk1 hk2
    by_cases hk : k = h
    · rw [hk]
      exact hs.closing h hclosing hclosed
    · rw [UvLoop.setFlags_flags, update_of_ne hk] at hk1 hk2
      exact hs.closing k hk1 hk2
  finishing := by
    intro k hk
    cases hk
    exact ⟨hs.closing h hclosing hclosed, by simp⟩

theorem Counted.finished (hs : Counted s) (hfin : s.finishing = some h) : Counted { s with
    loop := uvHandleUnref s.loop h
    handleQueue := s.handleQueue.erase h
    finishing := none } := by
  obtain ⟨hmem, hclosed⟩ := hs.finishing h hfin
  have honly : OnlyFlags h s.loop (uvHandleUnref s.loop h) := uvHandleUnref_only
  have happly : s.apply h uvHandleUnref = some { s with loop := uvHandleUnref s.loop h } :=
    if_pos hmem
  have hnext := hs.apply (fun _ => uvHandleUnref_only) (fun _ => uvHandleUnref_adjusts) happly
  constructor
  · exact hnext.tally.erase uvHandleUnref_counted
  · intro k hk1 hk2
    have hne : k ≠ h := by
      rintro rfl
      rw [honly.closed, hclosed] at hk2
      cases hk2
    exact Finset.mem_erase_of_ne_of_mem hne (hnext.closing k hk1 hk2)
  · intro k habs
    cases habs

theorem Counted.step {e : Event ι γ} (hs : Counted s) (hstep : Step s e t) : Counted t := by
  unfold Step at hstep
  cases e with
  | init h =>
    simp only [HandleSet.step, Option.ite_none_left_eq_some] at hstep
    obtain ⟨hnew, hstep⟩ := hstep
    cases hstep
    exact hs.init hnew
  | start h => exact hs.apply (fun _ => uvHandleStart_only) (fun _ => uvHandleStart_adjusts) hstep
  | stop h => exact hs.apply (fun _ => uvHandleStop_only) (fun _ => uvHandleStop_adjusts) hstep
  | ref h => exact hs.apply (fun _ => uvHandleRef_only) (fun _ => uvHandleRef_adjusts) hstep
  | unref h => exact hs.apply (fun _ => uvHandleUnref_only) (fun _ => uvHandleUnref_adjusts) hstep
  | close h closeCb =>
    simp only [HandleSet.step, Option.ite_none_left_eq_some, HandleSet.apply,
      Option.ite_none_right_eq_some] at hstep
    obtain ⟨-, hmem, hstep⟩ := hstep
    cases hstep
    exact hs.close hmem
  | makeClosePending h =>
    simp only [HandleSet.step, uvMakeClosePending] at hstep
    split_ifs at hstep
    · cases hstep
      exact hs.congr rfl rfl rfl rfl
    · cases hstep
  | runClosing =>
    simp only [HandleSet.step, Option.ite_none_right_eq_some] at hstep
    obtain ⟨-, hstep⟩ := hstep
    cases hstep
    exact hs.congr rfl rfl rfl rfl
  | finishClose =>
    simp only [HandleSet.step] at hstep
    split at hstep
    · rw [Option.ite_none_right_eq_some] at hstep
      obtain ⟨⟨hclosing, hclosed⟩, hstep⟩ := hstep
      cases hstep
      exact hs.finishClose hclosing hclosed
    · cases hstep
  | finished =>
    simp only [HandleSet.step] at hstep
    split at hstep
    next hfin =>
      cases hstep
      exact hs.finished hfin
    next => cases hstep
  | reqRegister =>
    cases hstep
    exact hs.congr rfl rfl rfl rfl
  | reqUnregister =>
    simp only [HandleSet.step, uvReqUnregister] at hstep
    split_ifs at hstep
    · cases hstep
    · cases hstep
      exact hs.congr rfl rfl rfl rfl

theorem counted_of_reachable (hs : Reachable Init Step s) : Counted s :=
  hs.invariant (fun _ => Init.counted) fun _ _ _ _ => Counted.step

omit [DecidableEq ι] in
theorem Counted.alive_iff (hs : Counted s) (hsmall : s.handleQueue.card < 2 ^ 32) :
    uvLoopAlive s.loop = true ↔ (∃ h ∈ s.handleQueue, (s.loop.flags h).counted = true) ∨
      0 < s.loop.activeReqs ∨ s.loop.closingHandles ≠ [] := by
  rw [← hs.tally.pos_iff hsmall]
  simp [uvLoopAlive, or_assoc]

end HandleSet

end LibuvWorks.Unix
