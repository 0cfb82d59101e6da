import LibuvWorks.Lib.Tally
import LibuvWorks.Win.Run

/-!
# The count of active handles on Windows

The same for the Windows backend: a handle that closes counts until it is closed, and
its other flags have no part in the count any more.
-/
namespace LibuvWorks.Win

open Transition Tally

@[simp] theorem UvLoop.setFlags_activeHandles {ι γ : Type*} [DecidableEq ι] (l : UvLoop ι γ)
    (h : Handle ι) (v : HandleFlags) : (l.setFlags h v).activeHandles = l.activeHandles := rfl

/-- The handle counts for `active_handles`. -/
def HandleFlags.counted (f : HandleFlags) : Bool :=
  if f.closing then !f.closed else f.active && f.ref

/-- A loop with the handles that are in its `handle_queue`. -/
structure HandleSet (ι γ : Type*) where
  loop : UvLoop ι γ
  handleQueue : Finset (Handle ι)

namespace HandleSet

variable {ι γ : Type*} [DecidableEq ι]

def apply (s : HandleSet ι γ) (h : Handle ι)
    (f : UvLoop ι γ → Handle ι → Except Fault (UvLoop ι γ)) : Option (HandleSet ι γ) :=
  if h ∈ s.handleQueue then (f s.loop h).toOption.map fun l => { s with loop := l } else none

inductive Event (ι γ : Type*) where
  /-- `uv__handle_init` -/
  | init : Handle ι → Event ι γ
  | start : Handle ι → Event ι γ
  | stop : Handle ι → Event ι γ
  | ref : Handle ι → Event ι γ
  | unref : Handle ι → Event ι γ
  /-- `uv__handle_closing` -/
  | closing : Handle ι → Event ι γ
  | wantEndgame : Handle ι → Event ι γ
  /-- `uv_process_endgames` takes a handle. -/
  | endgame : Event ι γ
  /-- `uv__handle_close`, up to the close callback. -/
  | handleClose : Handle ι → Event ι γ
  | reqRegister : Event ι γ
  | reqUnregister : Event ι γ

/-- An `assert` that fails ends the program. The endgames call `uv__handle_close` for handles that
are closing and assert that they are not closed. -/
def step (s : HandleSet ι γ) : Event ι γ → Option (HandleSet ι γ)
  | .init h =>
    if h ∈ s.handleQueue then none
    else some { s with
      loop := s.loop.setFlags h { active := false, ref := true, closing := false, closed := false,
                                  endgameQueued := false }
      handleQueue := insert h s.handleQueue }
  | .start h => s.apply h uvHandleStart
  | .stop h => s.apply h uvHandleStop
  | .ref h => s.apply h fun l h => .ok (uvHandleRef l h)
  | .unref h => s.apply h fun l h => .ok (uvHandleUnref l h)
  | .closing h => s.apply h uvHandleClosing
  | .wantEndgame h => s.apply h fun l h => .ok (uvWantEndgame l h)
  | .endgame =>
    match s.loop.endgameHandles with
    | [] => none
    | h :: rest =>
      let l := { s.loop with endgameHandles := rest }
      some { s with loop := l.setFlags h { l.flags h with endgameQueued := false } }
  | .handleClose h =>
    if (s.loop.flags h).closing = true ∧ (s.loop.flags h).closed = false then
      (s.apply h fun l h => uvHandleClose l h []).map fun s =>
        { s with handleQueue := s.handleQueue.erase h }
    else none
  | .reqRegister => some { s with loop := uvReqRegister s.loop }
  | .reqUnregister => (uvReqUnregister s.loop).toOption.map fun l => { s with loop := l }

def Init (s : HandleSet ι γ) : Prop := s.handleQueue = ∅ ∧ s.loop.activeHandles = 0

def Step (s : HandleSet ι γ) (e : Event ι γ) (t : HandleSet ι γ) : Prop := step s e = some t

/-! ### What a macro does to the count -/

variable {l l' : UvLoop ι γ} {h : Handle ι}

/-- No other handle changes, and the count is adjusted by what changes for `h`. -/
def Adjusts (h : Handle ι) (l l' : UvLoop ι γ) : Prop :=
  (∀ k, k ≠ h → l'.flags k = l.flags k) ∧
    l'.activeHandles + UInt32.ofNat (l.flags h).counted.toNat =
      l.activeHandles + UInt32.ofNat (l'.flags h).counted.toNat

/-- The flag `closed` of `h` stays as it is. -/
def KeepsClosed (h : Handle ι) (l l' : UvLoop ι γ) : Prop :=
  (l'.flags h).closed = (l.flags h).closed

theorem uvHandleStart_adjusts (hrun : uvHandleStart l h = .ok l') :
    Adjusts h l l' ∧ KeepsClosed h l l' := by
  have hrest := (uvHandleStart_only hrun).1.flags
  unfold uvHandleStart at hrun
  split_ifs at hrun with hclosing hactive <;> cases hrun
  · exact ⟨⟨hrest, rfl⟩, rfl⟩
  · refine ⟨⟨hrest, ?_⟩, by unfold KeepsClosed; split_ifs <;> simp⟩
    cases href : (l.flags h).ref <;> simp [HandleFlags.counted, hclosing, hactive, href]

theorem uvHandleStop_adjusts (hrun : uvHandleStop l h = .ok l') :
    Adjusts h l l' ∧ KeepsClosed h l l' := by
  have hrest := (uvHandleStop_only hrun).1.flags
  unfold uvHandleStop at hrun
  split_ifs at hrun with hclosing hactive <;> cases hrun
  · exact ⟨⟨hrest, rfl⟩, rfl⟩
  · refine ⟨⟨hrest, ?_⟩, by unfold KeepsClosed; split_ifs <;> simp⟩
    cases href : (l.flags h).ref <;> simp [HandleFlags.counted, hclosing, hactive, href]

theorem uvHandleRef_adjusts :
    Adjusts h l (uvHandleRef l h) ∧ KeepsClosed h l (uvHandleRef l h) := by
  refine ⟨⟨uvHandleRef_only.1.flags, ?_⟩, ?_⟩
  · unfold uvHandleRef
    cases hclosing : (l.flags h).closing <;> cases hactive : (l.flags h).active <;>
      cases href : (l.flags h).ref <;> simp [HandleFlags.counted, hclosing, hactive, href]
  · unfold KeepsClosed uvHandleRef
    dsimp only
    split_ifs <;> simp

theorem uvHandleUnref_adjusts :
    Adjusts h l (uvHandleUnref l h) ∧ KeepsClosed h l (uvHandleUnref l h) := by
  refine ⟨⟨uvHandleUnref_only.1.flags, ?_⟩, ?_⟩
  · unfold uvHandleUnref
    cases hclosing : (l.flags h).closing <;> cases hactive : (l.flags h).active <;>
      cases href : (l.flags h).ref <;> simp [HandleFlags.counted, hclosing, hactive, href]
  · unfold KeepsClosed uvHandleUnref
    dsimp only
    split_ifs <;> simp

theorem uvHandleClosing_adjusts (hopen : (l.flags h).closed = false)
    (hrun : uvHandleClosing l h = .ok l') : Adjusts h l l' ∧ KeepsClosed h l l' := by
  have hrest := (uvHandleClosing_only hrun).1.flags
  unfold uvHandleClosing at hrun
  split_ifs at hrun with hclosing hoff <;> cases hrun
  · refine ⟨⟨hrest, ?_⟩, by simp [KeepsClosed]⟩
    simp [HandleFlags.counted, hclosing, hoff, hopen]
  · refine ⟨⟨hrest, ?_⟩, by simp [KeepsClosed]⟩
    have hcounted : (l.flags h).counted = false := by
      simpa [HandleFlags.counted, hclosing] using hoff
    rw [hcounted]
    simp [HandleFlags.counted, hopen]

theorem uvWantEndgame_adjusts :
    Adjusts h l (uvWantEndgame l h) ∧ KeepsClosed h l (uvWantEndgame l h) := by
  unfold Adjusts KeepsClosed uvWantEndgame
  split_ifs
  · exact ⟨⟨fun _ _ => rfl, rfl⟩, rfl⟩
  · exact ⟨⟨fun k hk => by simp [hk], by simp [HandleFlags.counted]⟩, by simp⟩

theorem uvHandleClose_adjusts (hclosing : (l.flags h).closing = true)
    (hclosed : (l.flags h).closed = false) (hrun : uvHandleClose l h [] = .ok l') :
    Adjusts h l l' ∧ (l'.flags h).counted = false := by
  have heq : l' = { l.setFlags h { l.flags h with closed := true } with
      activeHandles := l.activeHandles - 1 } := by
    unfold uvHandleClose at hrun
    dsimp only at hrun
    split at hrun <;> exact (Except.ok.inj hrun).symm
  rw [heq]
  refine ⟨⟨fun k hk => by simp [hk], ?_⟩, ?_⟩
  · simp [HandleFlags.counted, hclosing, hclosed]
  · simp [HandleFlags.counted, hclosing]

/-! ### The count in every state -/

def activeRefs (s : HandleSet ι γ) : Finset (Handle ι) :=
  s.handleQueue.filter fun h => (s.loop.flags h).closing = false ∧ (s.loop.flags h).active = true ∧
    (s.loop.flags h).ref = true

def closings (s : HandleSet ι γ) : Finset (Handle ι) :=
  s.handleQueue.filter fun h => (s.loop.flags h).closing = true ∧ (s.loop.flags h).closed = false

/-- The count agrees with the flags, and no handle in the queue is closed. -/
structure Counted (s : HandleSet ι γ) : Prop where
  tally : Tallies s.handleQueue (fun h => (s.loop.flags h).counted) s.loop.activeHandles
  opened : ∀ h ∈ s.handleQueue, (s.loop.flags h).closed = false

variable {s t : HandleSet ι γ} {f : UvLoop ι γ → Handle ι → Except Fault (UvLoop ι γ)}

omit [DecidableEq ι] in
theorem Init.counted (hs : Init s) : Counted s where
  tally := by
    rw [Tallies, hs.1, hs.2]
    rfl
  opened := by simp [hs.1]

omit [DecidableEq ι] in
theorem Counted.congr (hs : Counted s)
    (hflags : ∀ h, (t.loop.flags h).counted = (s.loop.flags h).counted ∧
      (t.loop.flags h).closed = (s.loop.flags h).closed)
    (hcount : t.loop.activeHandles = s.loop.activeHandles)
    (hqueue : t.handleQueue = s.handleQueue) : Counted t where
  tally := by
    rw [hqueue, hcount]
    exact hs.tally.congr fun h => (hflags h).1
  opened := by
    intro h hmem
    rw [hqueue] at hmem
    rw [(hflags h).2]
    exact hs.opened h hmem

theorem apply_eq_some : s.apply h f = some t ↔
    h ∈ s.handleQueue ∧ ∃ l, f s.loop h = .ok l ∧ t = { s with loop := l } := by
  unfold HandleSet.apply
  rw [Option.ite_none_right_eq_some]
  cases f s.loop h <;> simp [Except.toOption, eq_comm]

theorem Counted.apply (hs : Counted s) (hadj : ∀ h l, (s.loop.flags h).closed = false →
    f s.loop h = .ok l → Adjusts h s.loop l ∧ KeepsClosed h s.loop l)
    (hstep : s.apply h f = some t) : Counted t := by
  obtain ⟨hmem, l, hl, rfl⟩ := apply_eq_some.mp hstep
  have hopen := hs.opened h hmem
  obtain ⟨⟨hrest, hcount⟩, hclosed⟩ := hadj h l hopen hl
  constructor
  · exact hs.tally.step hmem (fun k hk => congrArg _ (hrest k hk)) hcount
  · intro k hk
    by_cases hne : k = h
    · rw [hne]
      exact hclosed.trans hopen
    · rw [hrest k hne]
      exact hs.opened k hk

theorem Counted.apply_ok (hs : Counted s) {g : UvLoop ι γ → Handle ι → UvLoop ι γ}
    (hadj : ∀ h, Adjusts h s.loop (g s.loop h) ∧ KeepsClosed h s.loop (g s.loop h))
    (hstep : s.apply h (fun l h => .ok (g l h)) = some t) : Counted t := by
  apply hs.apply _ hstep
  intro h l _ hl
  cases hl
  exact hadj h

theorem Counted.init (hs : Counted s) (hnew : h ∉ s.handleQueue) : Counted { s with
    loop := s.loop.setFlags h { active := false, ref := true, closing := false, closed := false,
                                endgameQueued := false }
    handleQueue := insert h s.handleQueue } where
  tally := by
    apply hs.tally.insert _ hnew
    · simp [HandleFlags.counted]
    · intro k hk
      simp [hk]
  opened := by
    intro k hk
    by_cases hne : k = h
    · simp [hne]
    · rw [UvLoop.setFlags_flags, Function.update_of_ne hne]
      exact hs.opened k (Finset.mem_of_mem_insert_of_ne hk hne)

theorem Counted.handleClose (hs : Counted s) (hclosing : (s.loop.flags h).closing = true)
    (hclosed : (s.loop.flags h).closed = false)
    (hstep : s.apply h (fun l h => uvHandleClose l h []) = some t) :
    Counted { t with handleQueue := t.handleQueue.erase h } := by
  obtain ⟨hmem, l, hl, rfl⟩ := apply_eq_some.mp hstep
  obtain ⟨⟨hrest, hcount⟩, hoff⟩ := uvHandleClose_adjusts hclosing hclosed hl
  constructor
  · exact (hs.tally.step hmem (fun k hk => congrArg _ (hrest k hk)) hcount).erase hoff
  · intro k hk
    obtain ⟨hne, hk⟩ := Finset.mem_erase.mp hk
    rw [hrest k hne]
    exact hs.opened k hk

theorem Counted.step {e : Event ι γ} (hs : Counted s) (hstep : Step s e t) : Counted t := by
  unfold Step at hstep
  cases e with
  | init h =>
    simp only [HandleSet.step, Option.ite_none_left_eq_some] at hstep
    obtain ⟨hnew, hstep⟩ := hstep
    cases hstep
    exact hs.init hnew
  | start h => exact hs.apply (fun _ _ _ => uvHandleStart_adjusts) hstep
  | stop h => exact hs.apply (fun _ _ _ => uvHandleStop_adjusts) hstep
  | ref h => exact hs.apply_ok (g := uvHandleRef) (fun _ => uvHandleRef_adjusts) hstep
  | unref h => exact hs.apply_ok (g := uvHandleUnref) (fun _ => uvHandleUnref_adjusts) hstep
  | closing h => exact hs.apply (fun _ _ => uvHandleClosing_adjusts) hstep
  | wantEndgame h => exact hs.apply_ok (g := uvWantEndgame) (fun _ => uvWantEndgame_adjusts) hstep
  | endgame =>
    simp only [HandleSet.step] at hstep
    split at hstep
    · cases hstep
    next h rest hh =>
      cases hstep
      refine hs.congr (fun k => ?_) rfl rfl
      by_cases hk : k = h <;> simp [hk, HandleFlags.counted]
  | handleClose h =>
    simp only [HandleSet.step, Option.ite_none_right_eq_some] at hstep
    obtain ⟨⟨hclosing, hclosed⟩, hstep⟩ := hstep
    obtain ⟨u, hu, rfl⟩ := Option.map_eq_some_iff.mp hstep
    exact hs.handleClose hclosing hclosed hu
  | reqRegister =>
    cases hstep
    exact hs.congr (fun _ => ⟨rfl, rfl⟩) rfl rfl
  | reqUnregister =>
    simp only [HandleSet.step, uvReqUnregister] at hstep
    split_ifs at hstep
    · cases hstep
    · cases hstep
      exact hs.congr (fun _ => ⟨rfl, rfl⟩) rfl rfl

theorem counted_of_reachable (hs : Reachable Init Step s) : Counted s :=
  hs.invariant (fun _ => Init.counted) fun _ _ _ _ => Counted.step

omit [DecidableEq ι] in
theorem counted_iff {h : Handle ι} : (s.loop.flags h).counted = true ↔
    ((s.loop.flags h).closing = false ∧ (s.loop.flags h).active = true ∧
      (s.loop.flags h).ref = true) ∨
    ((s.loop.flags h).closing = true ∧ (s.loop.flags h).closed = false) := by
  unfold HandleFlags.counted
  cases (s.loop.flags h).closing <;> simp

theorem card_counted : (s.handleQueue.filter fun h => (s.loop.flags h).counted = true).card =
    s.activeRefs.card + s.closings.card := by
  have hdisjoint : Disjoint s.activeRefs s.closings := by
    rw [Finset.disjoint_left]
    intro h hh habs
    obtain ⟨-, hopen, -⟩ := Finset.mem_filter.mp hh
    obtain ⟨-, hclosing, -⟩ := Finset.mem_filter.mp habs
    rw [hopen] at hclosing
    cases hclosing
  rw [← Finset.card_union_of_disjoint hdisjoint]
  congr 1
  ext h
  simp only [activeRefs, closings, Finset.mem_union, Finset.mem_filter, counted_iff]
  tauto

omit [DecidableEq ι] in
theorem Counted.alive_iff (hs : Counted s) (hsmall : s.handleQueue.card < 2 ^ 32) :
    uvLoopAlive s.loop = true ↔ s.activeRefs.Nonempty ∨ s.closings.Nonempty ∨
      0 < s.loop.activeReqs ∨ s.loop.endgameHandles ≠ [] := by
  have hpos : 0 < s.loop.activeHandles ↔ s.activeRefs.Nonempty ∨ s.closings.Nonempty := by
    rw [hs.tally.pos_iff hsmall]
    simp only [Finset.Nonempty, activeRefs, closings, Finset.mem_filter, counted_iff,
      ← exists_or, ← and_or_left]
  rw [← or_assoc, ← hpos]
  simp [uvLoopAlive, or_assoc]

end HandleSet

end LibuvWorks.Win
