import LibuvWorks.Unix.RunTimers

/-!
# Draining the due timers

`Draining l₀ l log` relates the state on entry of `uv__run_timers`, the state after
some iterations and the callbacks called so far. Every iteration keeps it and takes
one timer off the due ones, so the loop ends; at its end no timer is due.
-/
open List Function Finset

namespace LibuvWorks.Unix

variable {ι γ : Type*} [DecidableEq ι]

variable {l l' l₀ : UvLoop ι γ} {t s : ι} {T : Finset ι}

/-! ## One iteration -/

/-- The fields of a timer with a repeat value after it has fired. -/
structure Rearmed (l₀ l : UvLoop ι γ) (t : ι) : Prop where
  active : (l.flags (.timer t)).active = true
  timerCb : (l.timer t).timerCb = (l₀.timer t).timerCb
  timeout : (l.timer t).timeout.toNat =
    min (l₀.time.toNat + (l₀.timer t).repeatMs.toNat) (2 ^ 64 - 1)
  repeatMs : (l.timer t).repeatMs = (l₀.timer t).repeatMs

/-- A timer after it has fired: armed again if it repeats, else inactive. -/
def Fired (l₀ l : UvLoop ι γ) (t : ι) : Prop :=
  if (l₀.timer t).repeatMs = 0 then
    (l.flags (.timer t)).active = false ∧ l.timer t = l₀.timer t
  else Rearmed l₀ l t

section

omit [DecidableEq ι]

theorem Fired.fields (h : Fired l₀ l t) :
    (l.timer t).timerCb = (l₀.timer t).timerCb ∧ (l.timer t).repeatMs = (l₀.timer t).repeatMs := by
  unfold Fired at h
  split_ifs at h
  · exact ⟨by rw [h.2], by rw [h.2]⟩
  · exact ⟨h.timerCb, h.repeatMs⟩

theorem Fired.of_same (h : Fired l₀ l t) (hs : SameTimer l l' t) : Fired l₀ l' t := by
  unfold Fired at h ⊢
  split_ifs at h ⊢
  · exact ⟨hs.2.trans h.1, hs.1.trans h.2⟩
  · exact ⟨hs.2.trans h.active, by rw [hs.1, h.timerCb], by rw [hs.1, h.timeout],
      by rw [hs.1, h.repeatMs]⟩

theorem Fired.not_due (h : Fired l l' t) (hsame : l'.time = l.time) (htime : l.time ≠ uint64Max) :
    ¬ Due l' t := by
  intro hdue
  unfold Fired at h
  split_ifs at h with hrep
  · exact absurd hdue.1 (by simp [h.1])
  · have hle := hdue.2
    rw [hsame, UInt64.le_iff_toNat_le, h.timeout, ← clampedTimeout_toNat,
      ← UInt64.le_iff_toNat_le] at hle
    exact clampedTimeout_gt htime hrep hle

end

theorem timerFire_eq {f : γ} {l₁ l₂ : UvLoop ι γ} {r : ℤ} (hstop : uvTimerStop l t = .ok l₁)
    (hagain : uvTimerAgain l₁ t = .ok (r, l₂)) (hf : (l₂.timer t).timerCb = some f) :
    timerFire l t = .ok (f, l₂) := by
  simp only [timerFire, hstop, hagain, hf, bind, Except.bind]

theorem timerFire_spec (H : TimersOk T l) (hT : T.card ≤ 2 ^ 32 - 1)
    (ha : (l.flags (.timer t)).active = true) :
    ∃ f l', timerFire l t = .ok (f, l') ∧ TimersOk T l' ∧ TimerOnly t l l' ∧
      (l.timer t).timerCb = some f ∧ Fired l l' t := by
  have hcb := H.timerCb t ha
  obtain ⟨f, hf⟩ := Option.ne_none_iff_exists'.mp hcb
  obtain ⟨l1, hstop, H1, htimer1, _, hoff⟩ := uvTimerStop_spec H hT t
  have honly := uvTimerStop_only hstop
  by_cases hrep : (l.timer t).repeatMs = 0
  · have hagain : uvTimerAgain l1 t = .ok (0, l1) :=
      uvTimerAgain_of_once (by rwa [htimer1]) (by rw [htimer1, hrep])
    refine ⟨f, l1, timerFire_eq hstop hagain (by rw [htimer1, hf]), H1, honly, hf, ?_⟩
    rw [Fired, if_pos hrep]
    exact ⟨hoff, congrFun htimer1 t⟩
  · obtain ⟨l2, hagain, H2, hon2, htimer2, _⟩ := uvTimerAgain_spec H1 hT (H.mem t ha)
      (by rwa [htimer1]) (by rwa [htimer1])
    have honly2 := uvTimerAgain_only hagain
    rw [htimer1, honly.time] at htimer2
    refine ⟨f, l2, timerFire_eq hstop hagain (by rw [htimer2, hf]), H2, honly.trans honly2, hf, ?_⟩
    rw [Fired, if_neg hrep]
    exact ⟨hon2, by rw [htimer2], by rw [htimer2, clampedTimeout_toNat], by rw [htimer2]⟩

def allOps (log : List (Invocation ι γ)) : List (TimerOp ι γ) := log.flatMap (·.ops)

/-- Only timers due on entry are called, with the callback they had, each once, in
order, and none that an earlier callback changed. -/
structure InTurn (l₀ : UvLoop ι γ) (log : List (Invocation ι γ)) : Prop where
  due : ∀ inv ∈ log, Due l₀ inv.timer ∧ (l₀.timer inv.timer).timerCb = some inv.fn
  nodup : (log.map (·.timer)).Nodup
  order : log.Pairwise fun a b => timerLessThan l₀.timer b.timer a.timer = false
  fresh : log.Pairwise fun a b => ∀ op ∈ a.ops, ¬ op.Changes l₀.timer b.timer

/-- The state `l` of the loop after the invocations `log`, begun in the state `l₀`. -/
structure Draining (T : Finset ι) (l₀ l : UvLoop ι γ) (log : List (Invocation ι γ)) : Prop where
  turn : InTurn l₀ log
  ok : TimersOk T l
  time : l.time = l₀.time
  notDue : ∀ t, Due l t → (∀ inv ∈ log, inv.timer ≠ t) ∧ ∀ op ∈ allOps log, ¬ op.Changes l₀.timer t
  ahead : ∀ t, Due l t → ∀ inv ∈ log, timerLessThan l₀.timer t inv.timer = false
  kept : ∀ t, (∀ inv ∈ log, inv.timer ≠ t) → (∀ op ∈ allOps log, ¬ op.Changes l₀.timer t) →
    SameTimer l₀ l t
  fired : ∀ inv ∈ log, (∀ op ∈ allOps log, ¬ op.Changes l₀.timer inv.timer) →
    Fired l₀ l inv.timer
  closing : ∀ t, Closing l t ↔ Closing l₀ t ∨ t ∈ closes (allOps log)

theorem Draining.start (H : TimersOk T l) : Draining T l l [] where
  turn := ⟨by simp, by simp, .nil, .nil⟩
  ok := H
  time := rfl
  notDue _ _ := by simp [allOps]
  ahead _ _ := by simp
  kept _ _ _ := ⟨rfl, rfl⟩
  fired := by simp
  closing _ := by simp [allOps, closes]

section Step

variable {log : List (Invocation ι γ)} {f : γ} {ops : List (TimerOp ι γ)} {l₁ l₂ : UvLoop ι γ}

omit [DecidableEq ι] in
theorem allOps_append (inv : Invocation ι γ) : allOps (log ++ [inv]) = allOps log ++ inv.ops := by
  simp [allOps]

theorem Draining.same_of_due (D : Draining T l₀ l log) (hdue : Due l t) : SameTimer l₀ l t :=
  D.kept t (D.notDue t hdue).1 (D.notDue t hdue).2

theorem Draining.turn_append (D : Draining T l₀ l log) (hdue : Due l t)
    (hf : (l.timer t).timerCb = some f) : InTurn l₀ (log ++ [⟨t, f, ops⟩]) := by
  have hsame := D.same_of_due hdue
  have hnew : Due l₀ t := (hsame.due_iff D.time).mp hdue
  obtain ⟨hnotin, hno⟩ := D.notDue t hdue
  refine ⟨?_, ?_, ?_, ?_⟩
  · intro inv hinv
    rcases mem_append.mp hinv with hinv | hinv
    · exact D.turn.due inv hinv
    · obtain rfl := List.mem_singleton.mp hinv
      exact ⟨hnew, hsame.1 ▸ hf⟩
  · rw [map_append, nodup_append]
    refine ⟨D.turn.nodup, nodup_singleton _, ?_⟩
    intro a ha b hb
    obtain ⟨inv, hinv, rfl⟩ := mem_map.mp ha
    obtain rfl := List.mem_singleton.mp hb
    exact hnotin inv hinv
  · refine pairwise_append.mpr ⟨D.turn.order, pairwise_singleton .., ?_⟩
    intro a ha b hb
    obtain rfl := List.mem_singleton.mp hb
    exact D.ahead t hdue a ha
  · refine pairwise_append.mpr ⟨D.turn.fresh, pairwise_singleton .., ?_⟩
    intro a ha b hb op hop
    obtain rfl := List.mem_singleton.mp hb
    exact hno op (mem_flatMap.mpr ⟨a, ha, hop⟩)

theorem Draining.step (D : Draining T l₀ l log) (hmin : heapMin l.timerHeap = some t)
    (hdue : Due l t) (hf : (l.timer t).timerCb = some f) (honly : TimerOnly t l l₁)
    (hfired : Fired l l₁ t) (hoff : ¬ Due l₁ t) (E : OpsEffect T l₁ l₂ ops) :
    Draining T l₀ l₂ (log ++ [⟨t, f, ops⟩]) := by
  have hsame := D.same_of_due hdue
  have hops : allOps (log ++ [⟨t, f, ops⟩]) = allOps log ++ ops := allOps_append _
  -- a timer due after the callback was due before it and is not `t`
  have hback : ∀ s, Due l₂ s → s ≠ t ∧ Due l s ∧ ∀ op ∈ ops, ¬ op.Changes l₀.timer s := by
    intro s hs
    have hno := E.notDue s hs
    have hs1 := ((E.kept s hno).due_iff E.time).mp hs
    have hst : s ≠ t := fun e => hoff (e ▸ hs1)
    have hs0 := ((honly.sameTimer hst).due_iff honly.time).mp hs1
    refine ⟨hst, hs0, fun op hop hc => hno op hop ?_⟩
    have htimer : l₁.timer s = l₀.timer s := (honly.timer s hst).trans (D.same_of_due hs0).1
    exact (op.changes_congr (by rw [htimer]) (by rw [htimer])).mpr hc
  have hfired0 : Fired l₀ l₁ t := by
    unfold Fired at hfired ⊢
    rw [hsame.1] at hfired
    split_ifs at hfired ⊢
    · exact hfired
    · exact ⟨hfired.active, by rw [hfired.timerCb, hsame.1], by rw [hfired.timeout, hsame.1, D.time],
        by rw [hfired.repeatMs, hsame.1]⟩
  -- the callback leaves alone a timer that it does not change
  have hafter : ∀ s, (l₁.timer s).timerCb = (l₀.timer s).timerCb →
      (l₁.timer s).repeatMs = (l₀.timer s).repeatMs →
      (∀ op ∈ allOps log ++ ops, ¬ op.Changes l₀.timer s) → SameTimer l₁ l₂ s :=
    fun s hcb hrep hno => E.kept s fun op hop hc =>
      hno op (mem_append_right _ hop) ((op.changes_congr hcb hrep).mp hc)
  refine ⟨D.turn_append hdue hf, E.ok, E.time.trans (honly.time.trans D.time), ?_, ?_, ?_, ?_, ?_⟩
  · intro s hs
    obtain ⟨hst, hs0, hno⟩ := hback s hs
    obtain ⟨hnotin, hold⟩ := D.notDue s hs0
    rw [hops]
    constructor
    · intro inv hinv
      rcases mem_append.mp hinv with hinv | hinv
      · exact hnotin inv hinv
      · obtain rfl := List.mem_singleton.mp hinv
        exact hst.symm
    · intro op hop
      rcases mem_append.mp hop with hop | hop
      · exact hold op hop
      · exact hno op hop
  · intro s hs inv hinv
    obtain ⟨_, hs0, _⟩ := hback s hs
    rcases mem_append.mp hinv with hinv | hinv
    · exact D.ahead s hs0 inv hinv
    · obtain rfl := List.mem_singleton.mp hinv
      have hleast := (D.ok.earliest.2 t hmin).2 s hs0.1
      rwa [timerLessThan_congr (D.same_of_due hs0).1 hsame.1] at hleast
  · intro s hnotin hno
    rw [hops] at hno
    have hst : s ≠ t := fun e =>
      hnotin ⟨t, f, ops⟩ (mem_append_right _ (List.mem_singleton_self _)) e.symm
    have hold : SameTimer l₀ l s := D.kept s
      (fun inv hinv => hnotin inv (mem_append_left _ hinv))
      (fun op hop => hno op (mem_append_left _ hop))
    have hfire := honly.sameTimer hst
    have hcb := hafter s (by rw [hfire.1, hold.1]) (by rw [hfire.1, hold.1]) hno
    exact ⟨hcb.1.trans (hfire.1.trans hold.1), hcb.2.trans (hfire.2.trans hold.2)⟩
  · intro inv hinv hno
    rw [hops] at hno
    rcases mem_append.mp hinv with hinv | hinv
    · have hne : inv.timer ≠ t := (D.notDue t hdue).1 inv hinv
      have hold := (D.fired inv hinv fun op hop => hno op (mem_append_left _ hop)).of_same
        (honly.sameTimer hne)
      exact hold.of_same (hafter inv.timer hold.fields.1 hold.fields.2 hno)
    · obtain rfl := List.mem_singleton.mp hinv
      exact hfired0.of_same (hafter t hfired0.fields.1 hfired0.fields.2 hno)
  · intro s
    have hfire : Closing l₁ s ↔ Closing l s := by
      by_cases hst : s = t
      · rw [hst, Closing, Closing, honly.closing, honly.closed]
      · rw [Closing, Closing, honly.flags (.timer s) (by simpa using hst)]
    rw [E.closing, hfire, D.closing, hops, closes_append, mem_append, or_assoc]

end Step

/-! ## The whole loop -/

/-- The due timers of `T`; every iteration takes one away. -/
def dueTimers (T : Finset ι) (l : UvLoop ι γ) : Finset ι := T.filter (Due l)

omit [DecidableEq ι] in
theorem dueTimers_subset {T : Finset ι} (h : ∀ s, Due l' s → Due l s ∧ s ≠ t) (hdue : Due l t)
    (ht : t ∈ T) : dueTimers T l' ⊂ dueTimers T l := by
  refine Finset.ssubset_iff_subset_ne.mpr ⟨fun s hs => ?_, fun e => ?_⟩
  · obtain ⟨hsT, hs⟩ := Finset.mem_filter.mp hs
    exact Finset.mem_filter.mpr ⟨hsT, (h s hs).1⟩
  · have hmem : t ∈ dueTimers T l' := e ▸ Finset.mem_filter.mpr ⟨ht, hdue⟩
    exact (h t (Finset.mem_filter.mp hmem).2).2 rfl

theorem TimersOk.not_due (H : TimersOk T l)
    (hmin : ∀ m, heapMin l.timerHeap = some m → l.time < (l.timer m).timeout) : ¬ Due l t := by
  intro hdue
  cases hm : heapMin l.timerHeap with
  | none => exact absurd hdue.1 (by simp [H.earliest.1.mp hm t])
  | some m =>
    have hlater := hmin m hm
    have hle := hdue.2
    have hleast := (H.earliest.2 m hm).2 t hdue.1
    rw [← Bool.not_eq_true, timerLessThan_iff] at hleast
    rw [UInt64.lt_iff_toNat_lt] at hlater
    rw [UInt64.le_iff_toNat_le] at hle
    omega

variable {act : TimerCallbacks ι γ}

/-- The loop ends: with all due timers drained, or at the assertion of `uv_close`. -/
theorem uvRunTimers_drain (hT : T.card ≤ 2 ^ 32 - 1) (htime : l₀.time ≠ uint64Max)
    (hact : ∀ f log t l, ∀ op ∈ act f log t l, op.InContract T) (fuel : ℕ) :
    ∀ {l : UvLoop ι γ} {log : List (Invocation ι γ)}, Draining T l₀ l log →
    (dueTimers T l).card < fuel →
    ∃ log' result, uvRunTimers act fuel l log = (log', result) ∧ InTurn l₀ log' ∧
      (result = .error .assertion ∧ ¬ ClosesOnce l₀ (allOps log') ∨
        ∃ l', result = .ok l' ∧ Draining T l₀ l' log' ∧ ∀ t, ¬ Due l' t) := by
  induction fuel with
  | zero => exact fun _ h => absurd h (Nat.not_lt_zero _)
  | succ fuel ih =>
    intro l log D hfuel
    rw [uvRunTimers]
    cases hmin : heapMin l.timerHeap with
    | none =>
      exact ⟨log, .ok l, rfl, D.turn, .inr ⟨l, rfl, D, fun t => D.ok.not_due (by simp [hmin])⟩⟩
    | some t =>
      dsimp only
      split_ifs with hlater
      · refine ⟨log, .ok l, rfl, D.turn, .inr ⟨l, rfl, D, fun s => D.ok.not_due ?_⟩⟩
        intro m hm
        obtain rfl := Option.some.inj (hmin.symm.trans hm)
        exact hlater
      · have ha := (D.ok.earliest.2 t hmin).1
        have hdue : Due l t := ⟨ha, by simpa using hlater⟩
        have htime' : l.time ≠ uint64Max := by rwa [D.time]
        obtain ⟨f, l1, hfire, H1, honly, hf, hfired⟩ := timerFire_spec D.ok hT ha
        have hoff := hfired.not_due honly.time htime'
        rw [hfire]
        dsimp only
        have hops := hact f log t l1
        generalize act f log t l1 = ops at hops ⊢
        rcases runTimerOps_spec hT H1 (by rwa [honly.time]) hops with ⟨hfail, hbad⟩ | ⟨l2, hrun, E⟩
        · rw [hfail]
          refine ⟨_, _, rfl, D.turn_append hdue hf, .inl ⟨rfl, fun honce => hbad ?_⟩⟩
          rw [ClosesOnce, allOps_append, closes_append, nodup_append] at honce
          refine ⟨honce.1.2.1, fun s hs hclosing => ?_⟩
          have hfire : Closing l s := by
            by_cases hst : s = t
            · rwa [hst, Closing, honly.closing, honly.closed, ← hst] at hclosing
            · rwa [Closing, honly.flags (.timer s) (by simpa using hst)] at hclosing
          rcases (D.closing s).mp hfire with hc | hc
          · exact honce.2 s (mem_append_right _ hs) hc
          · exact honce.1.2.2 s hc s hs rfl
        · rw [hrun]
          have D' := D.step hmin hdue hf honly hfired hoff E
          refine ih D' (lt_of_lt_of_le (card_lt_card ?_) (Nat.lt_succ_iff.mp hfuel))
          refine dueTimers_subset (fun s hs => ?_) hdue (D.ok.mem t ha)
          have hs1 := ((E.kept s (E.notDue s hs)).due_iff E.time).mp hs
          have hst : s ≠ t := fun e => hoff (e ▸ hs1)
          exact ⟨((honly.sameTimer hst).due_iff honly.time).mp hs1, hst⟩

/-- What one call of `uv__run_timers` leaves behind. -/
structure Drained (l₀ l : UvLoop ι γ) (log : List (Invocation ι γ)) : Prop where
  /-- Every timer due on entry was called, unless a callback changed it before. -/
  called : ∀ t, Due l₀ t → (∀ op ∈ allOps log, ¬ op.Changes l₀.timer t) →
    ∃ inv ∈ log, inv.timer = t
  /-- A fired timer that no callback changed is armed again if it repeats. -/
  fired : ∀ inv ∈ log, (∀ op ∈ allOps log, ¬ op.Changes l₀.timer inv.timer) →
    Fired l₀ l inv.timer
  kept : ∀ t, (∀ inv ∈ log, inv.timer ≠ t) → (∀ op ∈ allOps log, ¬ op.Changes l₀.timer t) →
    SameTimer l₀ l t
  none_due : ∀ t, ¬ Due l t

/-- Before the last value of the loop time and with at most `2 ^ 32 - 1` timers, one
call of `uv__run_timers` ends. It calls the due timers in order, each once, and
returns with none left, unless a callback closes a timer that is closing already. -/
theorem uvRunTimers_spec (hT : T.card ≤ heapCapacity) (H : TimersOk T l)
    (htime : l.time ≠ uint64Max)
    (hact : ∀ f log t l, ∀ op ∈ act f log t l, op.InContract T) {fuel : ℕ}
    (hfuel : T.card < fuel) :
    ∃ log result, uvRunTimers act fuel l [] = (log, result) ∧ InTurn l log ∧
      (result = .error .assertion ∧ ¬ ClosesOnce l (allOps log) ∨
        ∃ l', result = .ok l' ∧ Drained l l' log) := by
  obtain ⟨log, result, hrun, hturn, hres⟩ := uvRunTimers_drain hT htime hact fuel (.start H)
    (lt_of_le_of_lt (Finset.card_filter_le ..) hfuel)
  refine ⟨log, result, hrun, hturn, hres.imp_right ?_⟩
  rintro ⟨l', hok, D, hnone⟩
  refine ⟨l', hok, fun t hdue hno => ?_, D.fired, D.kept, hnone⟩
  by_contra hnotin
  have hsame := D.kept t (fun inv hinv e => hnotin ⟨inv, hinv, e⟩) hno
  exact hnone t ((hsame.due_iff D.time).mpr hdue)

theorem uvRunTimers_one_timer : ∃ l log result,
    uvTimerStart (idleLoop 5) 0 (some ()) 0 3 = .ok (0, l) ∧
      uvRunTimers noOps 2 l [] = (log, result) ∧ InTurn l log ∧
      (result = .error .assertion ∧ ¬ ClosesOnce l (allOps log) ∨
        ∃ l', result = .ok l' ∧ Drained l l' log) := by
  obtain ⟨l, hrun, H, _⟩ := uvTimerStart_spec (T := {0}) (t := 0)
    (idleLoop_ok _ 5) (by decide) (by decide) (Option.some_ne_none ()) 0 3
  have htime : l.time ≠ uint64Max := by
    rw [(uvTimerStart_only hrun).time]
    decide
  have hact : ∀ f log t l, ∀ op ∈ noOps f log t l, op.InContract {0} := by simp [noOps]
  have hfuel : Finset.card {0} < 2 := by decide
  obtain ⟨log, result, h⟩ := uvRunTimers_spec (by decide) H htime hact hfuel
  exact ⟨l, log, result, hrun, h⟩

end LibuvWorks.Unix

/-!
## The limits of the clock and of the heap

Two states in which `uv__run_timers` never returns: at the last value of the loop
time a repeating timer is due again at once, and a heap whose count has wrapped
keeps its root.
-/
namespace LibuvWorks.Unix

theorem uvRunTimers_diverges {P : UvLoop ℕ Unit → Prop}
    (hP : ∀ l, P l → ∃ t, heapMin l.timerHeap = some t ∧ (l.timer t).timeout ≤ l.time ∧
      ∃ l', timerFire l t = .ok ((), l') ∧ P l') (fuel : ℕ) :
    ∀ {l : UvLoop ℕ Unit} (log : List (Invocation ℕ Unit)), P l →
      (uvRunTimers noOps fuel l log).2 = .error .fuel := by
  induction fuel with
  | zero => exact fun _ _ => rfl
  | succ fuel ih =>
    intro l log hl
    obtain ⟨t, hmin, hle, l', hfire, hl'⟩ := hP l hl
    have hnot : ¬ (l.timer t).timeout > l.time := UInt64.not_lt.mpr hle
    simp only [uvRunTimers, hmin, if_neg hnot, hfire, noOps]
    exact ih _ hl'

theorem uvRunTimers_last_time (fuel : ℕ) {l : UvLoop ℕ Unit} (H : TimersOk {0} l)
    (ha : (l.flags (.timer 0)).active = true) (hrep : (l.timer 0).repeatMs ≠ 0)
    (htime : l.time = uint64Max) : (uvRunTimers noOps fuel l []).2 = .error .fuel := by
  refine uvRunTimers_diverges (P := fun l => TimersOk {0} l ∧
    (l.flags (.timer 0)).active = true ∧ (l.timer 0).repeatMs ≠ 0 ∧ l.time = uint64Max)
    ?_ fuel [] ⟨H, ha, hrep, htime⟩
  rintro l ⟨H, ha, hrep, htime⟩
  obtain ⟨m, hm⟩ : ∃ m, heapMin l.timerHeap = some m := by
    cases hm : heapMin l.timerHeap with
    | none => exact absurd ha (by simp [H.earliest.1.mp hm 0])
    | some m => exact ⟨m, rfl⟩
  obtain rfl : m = 0 := Finset.mem_singleton.mp (H.mem m (H.earliest.2 m hm).1)
  obtain ⟨f, l', hfire, H', honly, _, hfired⟩ := timerFire_spec H (by decide) ha
  rw [Fired, if_neg hrep] at hfired
  refine ⟨0, hm, ?_, l', hfire, H', hfired.active, ?_, honly.time.trans htime⟩
  · rw [htime]
    exact Nat.le_of_lt_succ (l.timer 0).timeout.toNat_lt
  · rwa [hfired.repeatMs]

/-- The timers `0, …, n - 1` are started in this order, all due at once. -/
def startTimers (n : ℕ) : Except Fault (UvLoop ℕ Unit) :=
  (List.range n).foldlM (fun l t => Except.map Prod.snd (uvTimerStart l t (some ()) 0 0))
    (idleLoop 0)

theorem startTimers_succ (n : ℕ) : startTimers (n + 1) =
    startTimers n >>= fun l => Except.map Prod.snd (uvTimerStart l n (some ()) 0 0) := by
  simp [startTimers, range_succ]

/-- The first `n` timers are active and due, the later ones have not been started. -/
structure Started (n : ℕ) (l : UvLoop ℕ Unit) : Prop where
  ok : TimersOk (Finset.range heapCapacity) l
  time : l.time = 0
  counter : l.timerCounter = UInt64.ofNat n
  active : ∀ t, (l.flags (.timer t)).active = true ↔ t < n
  timer : ∀ t < n, l.timer t = ⟨some (), 0, 0, UInt64.ofNat t⟩

theorem startTimers_spec (n : ℕ) (hn : n ≤ heapCapacity) :
    ∃ l, startTimers n = .ok l ∧ Started n l := by
  induction n with
  | zero =>
    exact ⟨idleLoop 0, rfl, idleLoop_ok _ 0, rfl, rfl, by simp [idleLoop], by simp⟩
  | succ n ih =>
    obtain ⟨l, hrun, S⟩ := ih (by omega)
    obtain ⟨l', hstart, H', ha, htimer, hcount⟩ := uvTimerStart_spec (t := n) S.ok
      (by rw [card_range]; exact le_rfl) (Finset.mem_range.mpr (by omega))
      (Option.some_ne_none ()) 0 0
    have honly := uvTimerStart_only hstart
    refine ⟨l', ?_, H', honly.time.trans S.time, ?_, fun t => ?_, fun t ht => ?_⟩
    · rw [startTimers_succ, hrun]
      change Except.map Prod.snd (uvTimerStart l n (some ()) 0 0) = _
      rw [hstart]
      rfl
    · rw [hcount, S.counter, UInt64.ofNat_add]
      rfl
    · by_cases htn : t = n
      · subst htn
        simp [ha]
      · rw [honly.flags (.timer t) (by simpa using htn), S.active]
        omega
    · by_cases htn : t = n
      · subst htn
        rw [htimer, S.time, S.counter]
        rfl
      · rw [honly.timer t htn, S.timer t (by omega)]

/-- With the count of the heap at zero no timer leaves it: its root stays the earliest. -/
theorem uvRunTimers_count_zero (fuel : ℕ) {l : UvLoop ℕ Unit} {t : ℕ}
    (hmin : l.timerHeap.min = some t) (hnelts : l.timerHeap.nelts = 0)
    (htimer : (l.timer t).timerCb = some () ∧ (l.timer t).repeatMs = 0)
    (hdue : (l.timer t).timeout ≤ l.time) : (uvRunTimers noOps fuel l []).2 = .error .fuel := by
  refine uvRunTimers_diverges (P := fun l => l.timerHeap.min = some t ∧ l.timerHeap.nelts = 0 ∧
    ((l.timer t).timerCb = some () ∧ (l.timer t).repeatMs = 0) ∧ (l.timer t).timeout ≤ l.time)
    ?_ fuel [] ⟨hmin, hnelts, htimer, hdue⟩
  rintro l ⟨hmin, hnelts, htimer, hdue⟩
  obtain ⟨l', hstop, hheap, hsame, htime⟩ : ∃ l', uvTimerStop l t = .ok l' ∧
      l'.timerHeap = l.timerHeap ∧ l'.timer = l.timer ∧ l'.time = l.time := by
    unfold uvTimerStop
    split_ifs
    · have hr : heapRemove (timerLessThan l.timer) l.timerHeap t = some l.timerHeap := if_pos hnelts
      have honly := (uvHandleStop_only (l := { l with timerHeap := l.timerHeap })
        (h := .timer t)).timerOnly
      exact ⟨_, by simp only [timerRemove, hr], honly.2.2.1, honly.2.1, honly.1.time⟩
    · exact ⟨l, rfl, rfl, rfl, rfl⟩
  refine ⟨t, hmin, hdue, l', ?_, ?_⟩
  · have hagain : uvTimerAgain l' t = .ok (0, l') :=
      uvTimerAgain_of_once (by rw [hsame, htimer.1]; simp) (by rw [hsame, htimer.2])
    exact timerFire_eq hstop hagain (by rw [hsame, htimer.1])
  · rw [hheap, hsame, htime]
    exact ⟨hmin, hnelts, htimer, hdue⟩

/-- The timer that is one too many for the heap becomes its root, and the count wraps. -/
theorem startTimers_wraps : ∃ l, startTimers (2 ^ 32) = .ok l ∧
    l.timerHeap.min = some heapCapacity ∧ l.timerHeap.nelts = 0 ∧
    l.timer heapCapacity = ⟨some (), 0, 0, UInt64.ofNat heapCapacity⟩ ∧ l.time = 0 := by
  have hsucc : heapCapacity + 1 = 2 ^ 32 := rfl
  obtain ⟨l, hrun, S⟩ := startTimers_spec heapCapacity le_rfl
  have hall : activeTimers (Finset.range heapCapacity) l = Finset.range heapCapacity := by
    ext t
    rw [S.ok.mem_active, S.active, Finset.mem_range]
  have hfull : l.timerHeap.nelts = heapCapacity := by
    rw [← S.ok.heap.card, hall, card_range]
  obtain ⟨m, hm⟩ : ∃ m, heapMin l.timerHeap = some m := by
    cases hm : heapMin l.timerHeap with
    | none =>
      have hoff := S.ok.earliest.1.mp hm 0
      rw [← Bool.not_eq_true, S.active] at hoff
      exact absurd (by decide) hoff
    | some m => exact ⟨m, rfl⟩
  have hmlt : m < heapCapacity := (S.active m).mp (S.ok.earliest.2 m hm).1
  generalize hv : (⟨some (), 0, 0, UInt64.ofNat heapCapacity⟩ : UvTimer Unit) = v
  generalize hg : ({ l.setTimer heapCapacity v with timerCounter := l.timerCounter + 1 } :
    UvLoop ℕ Unit) = g
  have hgtimer : g.timer = Function.update l.timer heapCapacity v := by rw [← hg]; rfl
  have hgheap : g.timerHeap = l.timerHeap := by rw [← hg]; rfl
  have hless : timerLessThan g.timer heapCapacity m = false := by
    rw [← Bool.not_eq_true, timerLessThan_iff, hgtimer, update_self,
      update_of_ne (Nat.ne_of_lt hmlt), S.timer m hmlt, ← hv]
    simp only [UInt64.toNat_ofNat']
    unfold heapCapacity at hmlt ⊢
    omega
  obtain ⟨heap, hins, hmin', hnelts', _⟩ := heapInsert_full hfull hm hless
  have honly := (uvHandleStart_only (l := { g with timerHeap := heap })
    (h := .timer heapCapacity)).timerOnly
  refine ⟨uvHandleStart { g with timerHeap := heap } (.timer heapCapacity), ?_, ?_, ?_, ?_, ?_⟩
  · have hoff : uvIsActive l (.timer heapCapacity) = false := by
      rw [uvIsActive, ← Bool.not_eq_true, S.active]
      exact lt_irrefl _
    have hstop : timerStopIfActive l heapCapacity = .ok l := by
      rw [timerStopIfActive, if_neg (by simp [hoff])]
    have hinsert : timerInsert g heapCapacity =
        .ok (uvHandleStart { g with timerHeap := heap } (.timer heapCapacity)) := by
      simp only [timerInsert, hgheap, hins]
    have hfields : (⟨some (), clampedTimeout l.time 0, 0, l.timerCounter⟩ : UvTimer Unit) = v := by
      rw [← hv, S.time, S.counter]
      rfl
    rw [← hsucc, startTimers_succ, hrun]
    change Except.map Prod.snd (uvTimerStart l heapCapacity (some ()) 0 0) = _
    rw [uvTimerStart, if_neg (by simp), hstop]
    change Except.map Prod.snd (timerInsert { l.setTimer heapCapacity
      ⟨some (), clampedTimeout l.time 0, 0, l.timerCounter⟩ with
      timerCounter := l.timerCounter + 1 } heapCapacity >>= _) = _
    rw [hfields, hg, hinsert]
    rfl
  · rw [honly.2.2.1, hmin']
  · rw [honly.2.2.1, hnelts']
  · rw [honly.2.1]
    rw [hgtimer, update_self]
  · rw [honly.1.time, ← hg]
    exact S.time

/-- At the last value of the loop time, and with `2 ^ 32` timers, `uv__run_timers` does
not return however long it runs. -/
theorem uvRunTimers_limits :
    (∃ l, uvTimerStart (idleLoop uint64Max) 0 (some ()) 1 1 = .ok (0, l) ∧
      ∀ fuel, (uvRunTimers noOps fuel l []).2 = .error .fuel) ∧
    ∃ l, startTimers (2 ^ 32) = .ok l ∧ ∀ fuel, (uvRunTimers noOps fuel l []).2 = .error .fuel := by
  constructor
  · obtain ⟨l, hrun, H, ha, htimer, _⟩ := uvTimerStart_spec (T := {0}) (t := 0)
      (idleLoop_ok _ uint64Max) (by decide) (by decide) (Option.some_ne_none ()) 1 1
    refine ⟨l, hrun, fun fuel => uvRunTimers_last_time fuel H ha ?_ (uvTimerStart_only hrun).time⟩
    rw [htimer]
    decide
  · obtain ⟨l, hrun, hmin, hnelts, htimer, htime⟩ := startTimers_wraps
    refine ⟨l, hrun, fun fuel => uvRunTimers_count_zero fuel hmin hnelts ?_ ?_⟩
    · rw [htimer]
      exact ⟨rfl, rfl⟩
    · rw [htimer, htime]
      decide

end LibuvWorks.Unix
