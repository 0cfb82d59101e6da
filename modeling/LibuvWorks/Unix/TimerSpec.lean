import LibuvWorks.Heap.Spec
import LibuvWorks.Unix.Core
import Mathlib.Data.UInt

/-!
# What the timer operations do

`TimersOk T l` is the invariant of the timers of a loop: its active timers are
members of `T`, have a callback, and are exactly the nodes of the heap. With at
most `2 ^ 32 - 1` timers in `T` every operation keeps it and returns.
-/
namespace LibuvWorks.Unix

open Function Finset

variable {ι γ : Type*} [DecidableEq ι]

/-! ## The order of the timers -/

omit [DecidableEq ι] in
theorem timerLessThan_iff (timer : ι → UvTimer γ) (a b : ι) :
    timerLessThan timer a b = true ↔ (timer a).timeout.toNat < (timer b).timeout.toNat ∨
      (timer a).timeout.toNat = (timer b).timeout.toNat ∧
        (timer a).startId.toNat < (timer b).startId.toNat := by
  unfold timerLessThan
  split_ifs with h1 h2 h3 h4 <;> simp only [UInt64.lt_iff_toNat_lt] at * <;> simp <;> omega

instance (timer : ι → UvTimer γ) : IsStrictWeakOrder ι (LessThan (timerLessThan timer)) where
  irrefl a := by rw [LessThan, timerLessThan_iff]; omega
  trans a b c := by simp only [LessThan, timerLessThan_iff]; omega
  incomp_trans a b c := by simp only [LessThan, timerLessThan_iff]; omega

theorem clampedTimeout_toNat (time timeout : UInt64) :
    (clampedTimeout time timeout).toNat = min (time.toNat + timeout.toNat) (2 ^ 64 - 1) := by
  have ht := time.toNat_lt
  have hd := timeout.toNat_lt
  have hm : uint64Max.toNat = 2 ^ 64 - 1 := rfl
  unfold clampedTimeout
  split_ifs with hover <;> rw [UInt64.lt_iff_toNat_lt, UInt64.toNat_add] at hover
  · omega
  · rw [UInt64.toNat_add]
    omega

/-! ## What else may change -/

/-- What an operation on the timer `t` may change. -/
structure TimerOnly (t : ι) (l l' : UvLoop ι γ) : Prop where
  rest : ∃ n f g heap c, l' = { l with activeHandles := n, flags := f, timer := g,
                                       timerHeap := heap, timerCounter := c }
  flags : ∀ k, k ≠ .timer t → l'.flags k = l.flags k
  closing : (l'.flags (.timer t)).closing = (l.flags (.timer t)).closing
  closed : (l'.flags (.timer t)).closed = (l.flags (.timer t)).closed
  timer : ∀ s, s ≠ t → l'.timer s = l.timer s

variable {t : ι} {l l' l'' : UvLoop ι γ}

section

omit [DecidableEq ι]

theorem timerOnly_refl : TimerOnly t l l :=
  ⟨⟨_, _, _, _, _, rfl⟩, fun _ _ => rfl, rfl, rfl, fun _ _ => rfl⟩

theorem TimerOnly.trans (h : TimerOnly t l l') (h' : TimerOnly t l' l'') : TimerOnly t l l'' where
  rest := by
    obtain ⟨_, _, _, _, _, e⟩ := h.rest
    obtain ⟨_, _, _, _, _, e'⟩ := h'.rest
    rw [e', e]
    exact ⟨_, _, _, _, _, rfl⟩
  flags k hk := (h'.flags k hk).trans (h.flags k hk)
  closing := h'.closing.trans h.closing
  closed := h'.closed.trans h.closed
  timer s hs := (h'.timer s hs).trans (h.timer s hs)

theorem TimerOnly.time (h : TimerOnly t l l') : l'.time = l.time := by
  obtain ⟨_, _, _, _, _, e⟩ := h.rest
  rw [e]

theorem OnlyFlags.timerOnly {heap : Heap ι}
    (h : OnlyFlags (.timer t) { l with timerHeap := heap } l') :
    TimerOnly t l l' ∧ l'.timer = l.timer ∧ l'.timerHeap = heap ∧
      l'.timerCounter = l.timerCounter := by
  obtain ⟨n, f, rfl⟩ := h.rest
  exact ⟨{ h with rest := ⟨_, _, _, _, _, rfl⟩, timer := fun _ _ => rfl }, rfl, rfl, rfl⟩

end

theorem timerRemove_only (h : timerRemove l t = .ok l') : TimerOnly t l l' := by
  unfold timerRemove at h
  cases hr : heapRemove (timerLessThan l.timer) l.timerHeap t with
  | none =>
    rw [hr] at h
    cases h
  | some heap =>
    rw [hr] at h
    cases h
    exact uvHandleStop_only.timerOnly.1

theorem timerInsert_only (h : timerInsert l t = .ok l') : TimerOnly t l l' := by
  unfold timerInsert at h
  cases hr : heapInsert (timerLessThan l.timer) l.timerHeap t with
  | none =>
    rw [hr] at h
    cases h
  | some heap =>
    rw [hr] at h
    cases h
    exact uvHandleStart_only.timerOnly.1

theorem uvTimerStop_only (h : uvTimerStop l t = .ok l') : TimerOnly t l l' := by
  unfold uvTimerStop at h
  split_ifs at h with ha
  · exact timerRemove_only h
  · cases h
    exact timerOnly_refl

theorem timerStopIfActive_eq (l : UvLoop ι γ) (t : ι) :
    timerStopIfActive l t = uvTimerStop l t := by
  unfold timerStopIfActive uvTimerStop
  split_ifs <;> rfl

theorem uvTimerStart_only {cb : Option γ} {timeout repeatMs : UInt64} {r : ℤ}
    (h : uvTimerStart l t cb timeout repeatMs = .ok (r, l')) : TimerOnly t l l' := by
  unfold uvTimerStart at h
  split_ifs at h with hcb
  · cases h
    exact timerOnly_refl
  · obtain ⟨l1, h1, h⟩ := bind_eq_ok.mp h
    obtain ⟨l2, h2, h⟩ := bind_eq_ok.mp h
    cases h
    rw [timerStopIfActive_eq] at h1
    refine (uvTimerStop_only h1).trans (TimerOnly.trans ?_ (timerInsert_only h2))
    exact ⟨⟨_, _, _, _, _, rfl⟩, fun _ _ => rfl, rfl, rfl, fun _ hs => update_of_ne hs ..⟩

theorem uvTimerAgain_only {r : ℤ} (h : uvTimerAgain l t = .ok (r, l')) : TimerOnly t l l' := by
  unfold uvTimerAgain at h
  split_ifs at h with hcb hrep
  · cases h
    exact timerOnly_refl
  · obtain ⟨l1, h1, h⟩ := bind_eq_ok.mp h
    obtain ⟨⟨r2, l2⟩, h2, h⟩ := bind_eq_ok.mp h
    cases h
    exact (uvTimerStop_only h1).trans (uvTimerStart_only h2)
  · cases h
    exact timerOnly_refl

/-! ## The invariant -/

/-- The active timers of `T`. -/
def activeTimers (T : Finset ι) (l : UvLoop ι γ) : Finset ι :=
  T.filter fun t => (l.flags (.timer t)).active = true

omit [DecidableEq ι] in
theorem mem_activeTimers {T : Finset ι} :
    t ∈ activeTimers T l ↔ t ∈ T ∧ (l.flags (.timer t)).active = true := mem_filter

/-- The nodes of the heap are the active timers; these are in `T` and have a callback. -/
structure TimersOk (T : Finset ι) (l : UvLoop ι γ) : Prop where
  heap : IsHeap (timerLessThan l.timer) l.timerHeap (activeTimers T l)
  mem : ∀ t, (l.flags (.timer t)).active = true → t ∈ T
  timerCb : ∀ t, (l.flags (.timer t)).active = true → (l.timer t).timerCb ≠ none

variable {T : Finset ι}

theorem TimersOk.mem_active (H : TimersOk T l) :
    t ∈ activeTimers T l ↔ (l.flags (.timer t)).active = true :=
  mem_activeTimers.trans ⟨And.right, fun ha => ⟨H.mem t ha, ha⟩⟩

omit [DecidableEq ι] in
theorem activeTimers_card_le : (activeTimers T l).card ≤ T.card := card_filter_le ..

theorem TimersOk.of_eq (H : TimersOk T l) (hheap : l'.timerHeap = l.timerHeap)
    (htimer : l'.timer = l.timer)
    (hactive : ∀ t, (l'.flags (.timer t)).active = (l.flags (.timer t)).active) :
    TimersOk T l' := by
  have hS : activeTimers T l' = activeTimers T l := by
    ext t
    rw [mem_activeTimers, mem_activeTimers, hactive]
  refine ⟨?_, fun t ht => H.mem t (hactive t ▸ ht), fun t ht => ?_⟩
  · rw [hheap, htimer, hS]
    exact H.heap
  · rw [htimer]
    exact H.timerCb t (hactive t ▸ ht)

theorem activeTimers_of_only (h : TimerOnly t l l') (ha : (l'.flags (.timer t)).active = false) :
    activeTimers T l' = (activeTimers T l).erase t := by
  ext s
  rw [mem_erase, mem_activeTimers, mem_activeTimers]
  by_cases hs : s = t
  · subst hs
    simp [ha]
  · rw [h.flags (.timer s) (by simpa using hs)]
    simp [hs]

/-- Stopping a timer returns; afterwards it is inactive and the others are as before. -/
theorem uvTimerStop_spec (H : TimersOk T l) (hT : T.card ≤ 2 ^ 32 - 1) (t : ι) :
    ∃ l', uvTimerStop l t = .ok l' ∧ TimersOk T l' ∧ l'.timer = l.timer ∧
      l'.timerCounter = l.timerCounter ∧ (l'.flags (.timer t)).active = false := by
  unfold uvTimerStop uvIsActive
  split_ifs with ha
  · have hcard := activeTimers_card_le (T := T) (l := l)
    obtain ⟨heap, hr, hheap⟩ := heapRemove_spec H.heap (H.mem_active.mpr ha) (by omega)
    have honly := (uvHandleStop_only (l := { l with timerHeap := heap }) (h := .timer t)).timerOnly
    refine ⟨uvHandleStop { l with timerHeap := heap } (.timer t), by simp only [timerRemove, hr],
      ?_, honly.2.1, honly.2.2.2, uvHandleStop_active⟩
    -- an active timer was active before
    have hrest : ∀ s, ((uvHandleStop { l with timerHeap := heap } (.timer t)).flags
        (.timer s)).active = true → (l.flags (.timer s)).active = true := by
      intro s hs
      by_cases hst : s = t
      · rw [hst]
        exact ha
      · rwa [honly.1.flags (.timer s) (by simpa using hst)] at hs
    refine ⟨?_, fun s hs => H.mem s (hrest s hs), fun s hs => ?_⟩
    · rw [honly.2.1, honly.2.2.1, activeTimers_of_only honly.1 uvHandleStop_active]
      exact hheap
    · rw [honly.2.1]
      exact H.timerCb s (hrest s hs)
  · exact ⟨l, rfl, H, rfl, rfl, by simpa using ha⟩

omit [DecidableEq ι] in
theorem timerLessThan_congr {timer timer' : ι → UvTimer γ} {a b : ι} (ha : timer' a = timer a)
    (hb : timer' b = timer b) : timerLessThan timer' a b = timerLessThan timer a b := by
  simp only [timerLessThan, ha, hb]

theorem activeTimers_insert (h : TimerOnly t l l') (ha : (l'.flags (.timer t)).active = true)
    (ht : t ∈ T) : activeTimers T l' = insert t (activeTimers T l) := by
  ext s
  rw [mem_insert, mem_activeTimers, mem_activeTimers]
  by_cases hs : s = t
  · subst hs
    simp [ha, ht]
  · rw [h.flags (.timer s) (by simpa using hs)]
    simp [hs]

theorem timerInsert_spec (H : TimersOk T l) (hT : T.card ≤ 2 ^ 32 - 1) (ht : t ∈ T)
    (hoff : (l.flags (.timer t)).active = false) {v : UvTimer γ} (hcb : v.timerCb ≠ none)
    (c : UInt64) :
    ∃ l', timerInsert { l.setTimer t v with timerCounter := c } t = .ok l' ∧ TimersOk T l' ∧
      (l'.flags (.timer t)).active = true ∧ l'.timer = Function.update l.timer t v ∧
      l'.timerCounter = c := by
  have hfresh : t ∉ activeTimers T l := by
    rw [mem_activeTimers, hoff]
    simp
  have hcard : (activeTimers T l).card + 1 ≤ T.card := by
    rw [← card_insert_of_notMem hfresh]
    exact card_le_card (insert_subset ht (filter_subset ..))
  have hsame : ∀ s, s ≠ t → Function.update l.timer t v s = l.timer s :=
    fun s hs => update_of_ne hs ..
  -- the new fields of `t` do not change how the members compare
  have hheap : IsHeap (timerLessThan (Function.update l.timer t v)) l.timerHeap
      (activeTimers T l) :=
    H.heap.congr fun x hx y hy => timerLessThan_congr (hsame x fun e => hfresh (e ▸ hx))
      (hsame y fun e => hfresh (e ▸ hy))
  obtain ⟨heap, hr, hheap'⟩ := heapInsert_spec hheap hfresh (by omega)
  generalize hg : ({ l.setTimer t v with timerCounter := c } : UvLoop ι γ) = g
  have htimer : g.timer = Function.update l.timer t v := by rw [← hg]; rfl
  have honly := (uvHandleStart_only (l := { g with timerHeap := heap }) (h := .timer t)).timerOnly
  have hon : TimerOnly t l g := by
    rw [← hg]
    exact ⟨⟨_, _, _, _, _, rfl⟩, fun _ _ => rfl, rfl, rfl, fun s hs => hsame s hs⟩
  refine ⟨uvHandleStart { g with timerHeap := heap } (.timer t), ?_, ?_, uvHandleStart_active,
    honly.2.1.trans htimer, ?_⟩
  · rw [timerInsert, htimer, show g.timerHeap = l.timerHeap by rw [← hg]; rfl, hr]
  · have hrest : ∀ s, s ≠ t → (uvHandleStart { g with timerHeap := heap } (.timer t)).flags
        (.timer s) = l.flags (.timer s) :=
      fun s hs => (hon.trans honly.1).flags (.timer s) (by simpa using hs)
    refine ⟨?_, fun s hs => ?_, fun s hs => ?_⟩
    · rw [activeTimers_insert (hon.trans honly.1) uvHandleStart_active ht, honly.2.1,
        honly.2.2.1, htimer]
      exact hheap'
    · by_cases hst : s = t
      · exact hst ▸ ht
      · exact H.mem s (hrest s hst ▸ hs)
    · rw [honly.2.1, htimer]
      by_cases hst : s = t
      · rwa [hst, update_self]
      · rw [hsame s hst]
        exact H.timerCb s (hrest s hst ▸ hs)
  · rw [honly.2.2.2, ← hg]

/-- Starting a timer with a callback returns 0; afterwards it is active, due after
`timeout` milliseconds, and ordered after the timers started before it. -/
theorem uvTimerStart_spec (H : TimersOk T l) (hT : T.card ≤ 2 ^ 32 - 1) (ht : t ∈ T) {cb : Option γ}
    (hcb : cb ≠ none) (timeout repeatMs : UInt64) :
    ∃ l', uvTimerStart l t cb timeout repeatMs = .ok (0, l') ∧ TimersOk T l' ∧
      (l'.flags (.timer t)).active = true ∧
      l'.timer t = ⟨cb, clampedTimeout l.time timeout, repeatMs, l.timerCounter⟩ ∧
      l'.timerCounter = l.timerCounter + 1 := by
  obtain ⟨l1, hstop, H1, htimer1, hcount1, hoff1⟩ := uvTimerStop_spec H hT t
  have honly := uvTimerStop_only hstop
  obtain ⟨l2, hins, H2, hon2, htimer2, hcount2⟩ := timerInsert_spec H1 hT ht hoff1
    (v := ⟨cb, clampedTimeout l.time timeout, repeatMs, l.timerCounter⟩) hcb (l.timerCounter + 1)
  refine ⟨l2, ?_, H2, hon2, by rw [htimer2, update_self], hcount2⟩
  unfold uvTimerStart
  rw [if_neg hcb, timerStopIfActive_eq, hstop]
  change timerInsert { l1.setTimer t ⟨cb, clampedTimeout l1.time timeout, repeatMs,
    l1.timerCounter⟩ with timerCounter := l1.timerCounter + 1 } t >>= _ = _
  rw [honly.time, hcount1, hins]
  rfl

/-- `uv_timer_again` is a restart with the repeat value as its timeout, or nothing. -/
theorem uvTimerAgain_spec (H : TimersOk T l) (hT : T.card ≤ 2 ^ 32 - 1) (ht : t ∈ T)
    (hcb : (l.timer t).timerCb ≠ none) (hrep : (l.timer t).repeatMs ≠ 0) :
    ∃ l', uvTimerAgain l t = .ok (0, l') ∧ TimersOk T l' ∧
      (l'.flags (.timer t)).active = true ∧
      l'.timer t = ⟨(l.timer t).timerCb, clampedTimeout l.time (l.timer t).repeatMs,
        (l.timer t).repeatMs, l.timerCounter⟩ ∧
      l'.timerCounter = l.timerCounter + 1 := by
  obtain ⟨l1, hstop, H1, htimer1, hcount1, _⟩ := uvTimerStop_spec H hT t
  obtain ⟨l2, hstart, H2, hon2, htimer2, hcount2⟩ := uvTimerStart_spec H1 hT ht hcb
    (l.timer t).repeatMs (l.timer t).repeatMs
  refine ⟨l2, ?_, H2, hon2, ?_, by rw [hcount2, hcount1]⟩
  · unfold uvTimerAgain
    rw [if_neg hcb, if_pos hrep, hstop]
    change uvTimerStart l1 t (l1.timer t).timerCb (l1.timer t).repeatMs (l1.timer t).repeatMs >>=
      _ = _
    rw [htimer1, hstart]
    rfl
  · rw [htimer2, (uvTimerStop_only hstop).time, hcount1]

theorem uvTimerAgain_of_once (hcb : (l.timer t).timerCb ≠ none) (hrep : (l.timer t).repeatMs = 0) :
    uvTimerAgain l t = .ok (0, l) := by
  rw [uvTimerAgain, if_neg hcb, if_neg (not_not_intro hrep)]

theorem TimersOk.earliest (H : TimersOk T l) :
    (heapMin l.timerHeap = none ↔ ∀ t, (l.flags (.timer t)).active = false) ∧
      ∀ m, heapMin l.timerHeap = some m → (l.flags (.timer m)).active = true ∧
        ∀ t, (l.flags (.timer t)).active = true → timerLessThan l.timer t m = false := by
  obtain ⟨hnone, hsome⟩ := H.heap.min
  refine ⟨hnone.trans ?_, fun m hm => ?_⟩
  · rw [eq_empty_iff_forall_notMem]
    simp only [H.mem_active, Bool.not_eq_true]
  · obtain ⟨hmem, hleast⟩ := hsome m hm
    exact ⟨H.mem_active.mp hmem, fun t ht => hleast t (H.mem_active.mpr ht)⟩

end LibuvWorks.Unix
