import LibuvWorks.Unix.TimerSpec

/-!
# One call of `uv__run_timers`

The callbacks are arbitrary: `act f log t l` are the operations that the function
`f` performs when it is called for the timer `t` in the state `l`, after the
invocations `log`. The loop drains the timers that were due on entry; a callback
can stop, close or restart them, but it cannot make a timer due at the current
loop time.
-/
namespace LibuvWorks.Unix

open List Function

variable {ι γ : Type*} [DecidableEq ι]

inductive TimerOp (ι γ : Type*) where
  | start : ι → Option γ → UInt64 → UInt64 → TimerOp ι γ
  | stop : ι → TimerOp ι γ
  | again : ι → TimerOp ι γ
  | close : ι → Option γ → TimerOp ι γ

namespace TimerOp

def exec (l : UvLoop ι γ) : TimerOp ι γ → Except Fault (UvLoop ι γ)
  | start t cb timeout repeatMs => Except.map Prod.snd (uvTimerStart l t cb timeout repeatMs)
  | stop t => uvTimerStop l t
  | again t => Except.map Prod.snd (uvTimerAgain l t)
  | close t closeCb => uvClose l (.timer t) closeCb

/-- The timer the operation is called for. -/
def timer : TimerOp ι γ → ι
  | start t _ _ _ => t
  | stop t => t
  | again t => t
  | close t _ => t

/-- The operation is for a timer of `T`, and a start has a timeout of at least 1. -/
def InContract (T : Finset ι) (op : TimerOp ι γ) : Prop :=
  op.timer ∈ T ∧ ∀ t cb timeout repeatMs, op = start t cb timeout repeatMs → timeout ≠ 0

/-- The operation stops, closes or restarts `t`: a start without callback and
`uv_timer_again` without a repeat value do nothing. -/
def Changes (timers : ι → UvTimer γ) (t : ι) : TimerOp ι γ → Prop
  | start s cb _ _ => s = t ∧ cb ≠ none
  | stop s => s = t
  | again s => s = t ∧ (timers s).timerCb ≠ none ∧ (timers s).repeatMs ≠ 0
  | close s _ => s = t

end TimerOp

structure Invocation (ι γ : Type*) where
  timer : ι
  fn : γ
  ops : List (TimerOp ι γ)

abbrev TimerCallbacks (ι γ : Type*) :=
  γ → List (Invocation ι γ) → ι → UvLoop ι γ → List (TimerOp ι γ)

def runTimerOps (l : UvLoop ι γ) (ops : List (TimerOp ι γ)) : Except Fault (UvLoop ι γ) :=
  ops.foldlM TimerOp.exec l

/-- The due timer is stopped and started again; returns its callback. -/
def timerFire (l : UvLoop ι γ) (t : ι) : Except Fault (γ × UvLoop ι γ) := do
  let l ← uvTimerStop l t
  let (_, l) ← uvTimerAgain l t
  match (l.timer t).timerCb with
  | none => .error .crash
  | some f => .ok (f, l)

/-- `uv__run_timers`, with the invocations it made. -/
def uvRunTimers (act : TimerCallbacks ι γ) : (fuel : ℕ) → UvLoop ι γ → List (Invocation ι γ) →
    List (Invocation ι γ) × Except Fault (UvLoop ι γ)
  | 0, _, log => (log, .error .fuel)
  | fuel + 1, l, log =>
    match heapMin l.timerHeap with
    | none => (log, .ok l)
    | some t =>
      if (l.timer t).timeout > l.time then (log, .ok l)
      else
        match timerFire l t with
        | .error e => (log, .error e)
        | .ok (f, l) =>
          let ops := act f log t l
          let log := log ++ [⟨t, f, ops⟩]
          match runTimerOps l ops with
          | .error e => (log, .error e)
          | .ok l => uvRunTimers act fuel l log

/-! ## One operation of a callback -/

def Due (l : UvLoop ι γ) (t : ι) : Prop :=
  (l.flags (.timer t)).active = true ∧ (l.timer t).timeout ≤ l.time

instance (l : UvLoop ι γ) (t : ι) : Decidable (Due l t) := inferInstanceAs (Decidable (_ ∧ _))

/-- `uv_close` was called for the timer. -/
def Closing (l : UvLoop ι γ) (t : ι) : Prop :=
  (l.flags (.timer t)).closing = true ∨ (l.flags (.timer t)).closed = true

/-- The state of the timer `t` is the same in both loops. -/
def SameTimer (l l' : UvLoop ι γ) (t : ι) : Prop :=
  l'.timer t = l.timer t ∧ (l'.flags (.timer t)).active = (l.flags (.timer t)).active

variable {l l' l'' l₀ : UvLoop ι γ} {t s : ι} {T : Finset ι}

section

omit [DecidableEq ι]

theorem TimerOnly.sameTimer (h : TimerOnly t l l') (hs : s ≠ t) : SameTimer l l' s :=
  ⟨h.timer s hs, by rw [h.flags (.timer s) (by simpa using hs)]⟩

theorem SameTimer.due_iff (h : SameTimer l l' t) (htime : l'.time = l.time) :
    Due l' t ↔ Due l t := by
  rw [Due, Due, h.1, h.2, htime]

theorem TimerOp.changes_congr {timers timers' : ι → UvTimer γ} (op : TimerOp ι γ)
    (hcb : (timers' t).timerCb = (timers t).timerCb)
    (hrep : (timers' t).repeatMs = (timers t).repeatMs) :
    op.Changes timers' t ↔ op.Changes timers t := by
  cases op with
  | start s cb timeout repeatMs | stop s => exact Iff.rfl
  | again s =>
    apply and_congr_right
    intro e
    rw [e, hcb, hrep]
  | close s closeCb => exact Iff.rfl

end

/-- The timers that the operations close. -/
def closes (ops : List (TimerOp ι γ)) : List ι :=
  ops.filterMap fun
    | .close t _ => some t
    | _ => none

omit [DecidableEq ι] in
theorem closes_append (ops ops' : List (TimerOp ι γ)) :
    closes (ops ++ ops') = closes ops ++ closes ops' := filterMap_append

def ClosesOnce (l : UvLoop ι γ) (ops : List (TimerOp ι γ)) : Prop :=
  (closes ops).Nodup ∧ ∀ t ∈ closes ops, ¬ Closing l t

/-- What the operations `ops` do to the timers: those they change are not due
afterwards, the others are as before. -/
structure OpsEffect (T : Finset ι) (l l' : UvLoop ι γ) (ops : List (TimerOp ι γ)) : Prop where
  ok : TimersOk T l'
  time : l'.time = l.time
  notDue : ∀ t, Due l' t → ∀ op ∈ ops, ¬ op.Changes l.timer t
  kept : ∀ t, (∀ op ∈ ops, ¬ op.Changes l.timer t) → SameTimer l l' t
  closing : ∀ t, Closing l' t ↔ Closing l t ∨ t ∈ closes ops

theorem OpsEffect.nil (H : TimersOk T l) : OpsEffect T l l [] :=
  ⟨H, rfl, fun _ _ _ h => absurd h not_mem_nil, fun _ _ => ⟨rfl, rfl⟩,
    fun t => by simp [closes]⟩

theorem OpsEffect.append {ops ops' : List (TimerOp ι γ)} (h : OpsEffect T l l' ops)
    (h' : OpsEffect T l' l'' ops') : OpsEffect T l l'' (ops ++ ops') := by
  have hkept : ∀ t, (∀ op ∈ ops ++ ops', ¬ op.Changes l.timer t) → SameTimer l l' t :=
    fun t hno => h.kept t fun op hop => hno op (mem_append_left _ hop)
  have hcongr : ∀ {t}, SameTimer l l' t → ∀ op : TimerOp ι γ,
      op.Changes l'.timer t ↔ op.Changes l.timer t :=
    fun hs op => op.changes_congr (by rw [hs.1]) (by rw [hs.1])
  have hkept' : ∀ t, (∀ op ∈ ops ++ ops', ¬ op.Changes l.timer t) → SameTimer l' l'' t :=
    fun t hno => h'.kept t fun op hop hc =>
      hno op (mem_append_right _ hop) ((hcongr (hkept t hno) op).mp hc)
  refine ⟨h'.ok, h'.time.trans h.time, fun t hdue => ?_, fun t hno => ?_, fun t => ?_⟩
  · -- unchanged by `ops'`, so due in between and unchanged by `ops`
    have hno' := h'.notDue t hdue
    have hdue' := ((h'.kept t hno').due_iff h'.time).mp hdue
    have hno := h.notDue t hdue'
    intro op hop
    rcases mem_append.mp hop with hop | hop
    · exact hno op hop
    · exact fun hc => hno' op hop ((hcongr (h.kept t hno) op).mpr hc)
  · exact ⟨(hkept' t hno).1.trans (hkept t hno).1, (hkept' t hno).2.trans (hkept t hno).2⟩
  · rw [h'.closing, h.closing, closes_append, mem_append, or_assoc]

/-- An operation on one timer that leaves it not due, unless it changes nothing. -/
theorem OpsEffect.single {op : TimerOp ι γ} (H : TimersOk T l') (honly : TimerOnly op.timer l l')
    (hchange : op.Changes l.timer op.timer → ¬ Due l' op.timer)
    (hkeep : ¬ op.Changes l.timer op.timer → SameTimer l l' op.timer)
    (hsame : ∀ t, op.Changes l.timer t → t = op.timer) (hclose : closes [op] = []) :
    OpsEffect T l l' [op] where
  ok := H
  time := honly.time
  notDue t hdue o ho hc := by
    obtain rfl := mem_singleton.mp ho
    exact hchange (hsame t hc ▸ hc) (hsame t hc ▸ hdue)
  kept t hno := by
    by_cases ht : t = op.timer
    · exact ht ▸ hkeep (ht ▸ hno op (mem_singleton_self op))
    · exact honly.sameTimer ht
  closing t := by
    rw [hclose]
    by_cases ht : t = op.timer
    · rw [ht, Closing, Closing, honly.closing, honly.closed]
      simp
    · rw [Closing, Closing, honly.flags (.timer t) (by simpa using ht)]
      simp

theorem clampedTimeout_gt {time timeout : UInt64} (htime : time ≠ uint64Max) (h : timeout ≠ 0) :
    ¬ clampedTimeout time timeout ≤ time := by
  have ht := time.toNat_lt
  have hm : uint64Max.toNat = 2 ^ 64 - 1 := rfl
  have htime' : time.toNat ≠ uint64Max.toNat := fun e => htime (UInt64.toNat_inj.mp e)
  have h' : timeout.toNat ≠ (0 : UInt64).toNat := fun e => h (UInt64.toNat_inj.mp e)
  rw [UInt64.le_iff_toNat_le, clampedTimeout_toNat]
  rw [UInt64.toNat_zero] at h'
  omega

theorem uvClose_timer_spec (H : TimersOk T l) (hT : T.card ≤ 2 ^ 32 - 1) (hopen : ¬ Closing l t)
    (closeCb : Option γ) :
    ∃ l', uvClose l (.timer t) closeCb = .ok l' ∧ OpsEffect T l l' [.close t closeCb] ∧
      l'.timer = l.timer ∧ l'.timerCounter = l.timerCounter ∧
      (l'.flags (.timer t)).active = false := by
  have hclosed : (l.flags (.timer t)).closed = false := by
    rw [← Bool.not_eq_true]
    exact fun h => hopen (.inr h)
  have hflags : ∀ k, k ≠ Handle.timer t → (l.markClosing (.timer t) closeCb).flags k = l.flags k :=
    fun k hk => update_of_ne hk ..
  have hself : (l.markClosing (.timer t) closeCb).flags (.timer t) =
      { l.flags (.timer t) with closing := true } := update_self ..
  have hH : TimersOk T (l.markClosing (.timer t) closeCb) := H.of_eq rfl rfl fun s => by
    by_cases hs : s = t
    · rw [hs, hself]
    · rw [hflags (.timer s) (by simpa using hs)]
  obtain ⟨l1, hstop, H1, htimer1, hcount1, hoff⟩ := uvTimerStop_spec hH hT t
  have honly := uvTimerStop_only hstop
  have hpend : uvMakeClosePending l1 (.timer t) =
      .ok { l1 with closingHandles := .timer t :: l1.closingHandles } := by
    rw [uvMakeClosePending, if_pos]
    rw [honly.closing, honly.closed, hself]
    exact ⟨rfl, hclosed⟩
  refine ⟨{ l1 with closingHandles := .timer t :: l1.closingHandles }, ?_, ?_, htimer1, hcount1,
    hoff⟩
  · apply (if_neg hopen).trans
    rw [uvTypeClose, uvTimerClose, hstop]
    exact hpend
  · have hother : ∀ s, s ≠ t → l1.flags (.timer s) = l.flags (.timer s) := fun s hs => by
      rw [honly.flags (.timer s) (by simpa using hs), hflags (.timer s) (by simpa using hs)]
    refine ⟨H1.of_eq rfl rfl fun _ => rfl, ?_, ?_, ?_, ?_⟩
    · exact honly.time
    · intro s hdue op hop hc
      obtain rfl := mem_singleton.mp hop
      obtain rfl : t = s := hc
      exact absurd hdue.1 (by simp [hoff])
    · intro s hno
      have hs : s ≠ t := fun e => hno _ (mem_singleton_self _) e.symm
      exact ⟨congrFun htimer1 s, by rw [hother s hs]⟩
    · intro s
      by_cases hs : s = t
      · subst hs
        rw [Closing, honly.closing, hself]
        simp [closes]
      · rw [Closing, Closing, hother s hs]
        simp [closes, hs]

theorem exec_spec (H : TimersOk T l) (hT : T.card ≤ 2 ^ 32 - 1) (htime : l.time ≠ uint64Max)
    {op : TimerOp ι γ} (hop : op.InContract T) :
    (op.exec l = .error .assertion ∧ ∃ t ∈ closes [op], Closing l t) ∨
      ∃ l', op.exec l = .ok l' ∧ OpsEffect T l l' [op] := by
  cases op with
  | start t cb timeout repeatMs =>
    have hsame : ∀ s, (TimerOp.start t cb timeout repeatMs).Changes l.timer s → s = t :=
      fun s hc => hc.1.symm
    right
    by_cases hcb : cb = none
    · subst hcb
      refine ⟨l, rfl, .single H timerOnly_refl (fun hc => absurd rfl hc.2) (fun _ => ⟨rfl, rfl⟩)
        hsame rfl⟩
    · obtain ⟨l1, hrun, H1, _, htimer, _⟩ := uvTimerStart_spec (t := t) H hT hop.1 hcb
        timeout repeatMs
      refine ⟨l1, by rw [TimerOp.exec, hrun]; rfl,
        .single H1 (uvTimerStart_only hrun) (fun _ hdue => ?_)
        (fun hno => absurd ⟨rfl, hcb⟩ hno) hsame rfl⟩
      have hle := hdue.2
      change (l1.timer t).timeout ≤ l1.time at hle
      rw [htimer, (uvTimerStart_only hrun).time] at hle
      exact clampedTimeout_gt htime (hop.2 _ _ _ _ rfl) hle
  | stop t =>
    right
    obtain ⟨l1, hrun, H1, _, _, hoff⟩ := uvTimerStop_spec H hT t
    refine ⟨l1, hrun, .single H1 (uvTimerStop_only hrun) (fun _ hdue => ?_)
      (fun hno => absurd rfl hno) (fun s hc => hc.symm) rfl⟩
    exact absurd hdue.1 (by simp [TimerOp.timer, hoff])
  | again t =>
    have hsame : ∀ s, (TimerOp.again t).Changes l.timer s → s = t := fun s hc => hc.1.symm
    right
    by_cases hcb : (l.timer t).timerCb = none
    · refine ⟨l, ?_, .single H timerOnly_refl (fun hc => absurd hcb hc.2.1) (fun _ => ⟨rfl, rfl⟩)
        hsame rfl⟩
      rw [TimerOp.exec, uvTimerAgain, if_pos hcb]
      rfl
    · by_cases hrep : (l.timer t).repeatMs = 0
      · refine ⟨l, ?_, .single H timerOnly_refl (fun hc => absurd hrep hc.2.2)
          (fun _ => ⟨rfl, rfl⟩) hsame rfl⟩
        rw [TimerOp.exec, uvTimerAgain_of_once hcb hrep]
        rfl
      · obtain ⟨l1, hrun, H1, _, htimer, _⟩ := uvTimerAgain_spec (t := t) H hT hop.1 hcb hrep
        refine ⟨l1, by rw [TimerOp.exec, hrun]; rfl, .single H1 (uvTimerAgain_only hrun)
          (fun _ hdue => ?_) (fun hno => absurd ⟨rfl, hcb, hrep⟩ hno) hsame rfl⟩
        have hle := hdue.2
        change (l1.timer t).timeout ≤ l1.time at hle
        rw [htimer, (uvTimerAgain_only hrun).time] at hle
        exact clampedTimeout_gt htime hrep hle
  | close t closeCb =>
    by_cases hopen : Closing l t
    · exact .inl ⟨if_pos hopen, t, mem_singleton_self t, hopen⟩
    · obtain ⟨l1, hrun, E, _⟩ := uvClose_timer_spec H hT hopen closeCb
      exact .inr ⟨l1, hrun, E⟩

theorem runTimerOps_spec (hT : T.card ≤ 2 ^ 32 - 1) {ops : List (TimerOp ι γ)} :
    ∀ {l : UvLoop ι γ}, TimersOk T l → l.time ≠ uint64Max → (∀ op ∈ ops, op.InContract T) →
    (runTimerOps l ops = .error .assertion ∧ ¬ ClosesOnce l ops) ∨
      ∃ l', runTimerOps l ops = .ok l' ∧ OpsEffect T l l' ops := by
  induction ops with
  | nil => exact fun H _ _ => .inr ⟨_, rfl, .nil H⟩
  | cons op ops ih =>
    intro l H htime hops
    have hsplit : closes (op :: ops) = closes [op] ++ closes ops := closes_append [op] ops
    have hrun : runTimerOps l (op :: ops) = op.exec l >>= fun l => runTimerOps l ops := rfl
    rcases exec_spec H hT htime (hops op mem_cons_self) with ⟨hfail, t, ht, hclosing⟩ | ⟨l1, h1, E1⟩
    · refine .inl ⟨by rw [hrun, hfail]; rfl, fun honce => honce.2 t ?_ hclosing⟩
      rw [hsplit]
      exact mem_append_left _ ht
    · have hnext : runTimerOps l (op :: ops) = runTimerOps l1 ops := by rw [hrun, h1]; rfl
      rcases ih E1.ok (by rwa [E1.time]) fun o ho => hops o (mem_cons_of_mem _ ho) with
        ⟨hfail, hbad⟩ | ⟨l2, h2, E2⟩
      · refine .inl ⟨hnext.trans hfail, fun honce => hbad ?_⟩
        rw [ClosesOnce, hsplit, nodup_append] at honce
        refine ⟨honce.1.2.1, fun t ht hclosing => ?_⟩
        rcases (E1.closing t).mp hclosing with hc | hc
        · exact honce.2 t (mem_append_right _ ht) hc
        · exact honce.1.2.2 t hc t ht rfl
      · exact .inr ⟨l2, hnext.trans h2, E1.append E2⟩

/-! ## A loop to start from -/

/-- A loop without active handles. -/
def idleLoop (time : UInt64) : UvLoop ℕ Unit where
  time := time
  stopFlag := false
  activeHandles := 0
  activeReqs := 0
  closingHandles := []
  watcherHandles _ := []
  watcherRun _ := []
  pendingQueue := []
  pendingRun := []
  timerHeap := zeroHeap
  timerCounter := 0
  flags _ := ⟨false, true, false, false⟩
  timer _ := ⟨none, 0, 0, 0⟩
  watcherCb _ _ := none
  closeCb _ := none

def noOps : TimerCallbacks ℕ Unit := fun _ _ _ _ => []

theorem idleLoop_ok (T : Finset ℕ) (time : UInt64) : TimersOk T (idleLoop time) := by
  have hempty : activeTimers T (idleLoop time) = ∅ := by simp [activeTimers, idleLoop]
  refine ⟨?_, fun t ht => ?_, fun t ht => ?_⟩
  · rw [hempty]
    exact isHeap_init _
  · cases ht
  · cases ht

end LibuvWorks.Unix
