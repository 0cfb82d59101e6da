import LibuvWorks.Win.Core
import Mathlib.Data.UInt

/-!
# What the Windows timer operations do

`TimersOk l` is the invariant of the timers of a loop: the tree lists exactly the
active timers, in order. An operation that returns keeps it; a start on a closing
handle, or one whose number is taken, ends in an assertion instead.
-/
namespace LibuvWorks.Win

open List
open Function (update update_of_ne)

variable {ι γ : Type*} [DecidableEq ι] {timer : ι → UvTimer γ} {xs : List ι}

/-! ## The tree -/

section

omit [DecidableEq ι]

theorem uvTimerCompare_lt_iff (timer : ι → UvTimer γ) (a b : ι) :
    uvTimerCompare timer a b = .lt ↔ (timer a).due.toNat < (timer b).due.toNat ∨
      (timer a).due.toNat = (timer b).due.toNat ∧
        (timer a).startId.toNat < (timer b).startId.toNat := by
  unfold uvTimerCompare
  split_ifs with h1 h2 h3 h4 <;> simp only [gt_iff_lt, UInt64.lt_iff_toNat_lt] at * <;>
    simp <;> omega

theorem uvTimerCompare_gt_iff (timer : ι → UvTimer γ) (a b : ι) :
    uvTimerCompare timer a b = .gt ↔ uvTimerCompare timer b a = .lt := by
  rw [uvTimerCompare_lt_iff]
  unfold uvTimerCompare
  split_ifs with h1 h2 h3 h4 <;> simp only [gt_iff_lt, UInt64.lt_iff_toNat_lt] at * <;>
    simp <;> omega

theorem uvTimerCompare_trans {a b c : ι}
    (hab : uvTimerCompare timer a b = .lt) (hbc : uvTimerCompare timer b c = .lt) :
    uvTimerCompare timer a c = .lt := by
  rw [uvTimerCompare_lt_iff] at *
  omega

theorem uvTimerCompare_congr {timer' : ι → UvTimer γ} {a b : ι} (ha : timer' a = timer a)
    (hb : timer' b = timer b) : uvTimerCompare timer' a b = uvTimerCompare timer a b := by
  simp only [uvTimerCompare, ha, hb]

end

abbrev InOrder (timer : ι → UvTimer γ) (xs : List ι) : Prop :=
  xs.Pairwise fun a b => uvTimerCompare timer a b = .lt

omit [DecidableEq ι] in
theorem InOrder.nodup (h : InOrder timer xs) : xs.Nodup := by
  apply h.imp
  rintro a b hab rfl
  rw [uvTimerCompare_lt_iff] at hab
  omega

omit [DecidableEq ι] in
theorem rbInsert_spec {elm : ι} {ys : List ι} (h : InOrder timer xs)
    (hrun : rbInsert (uvTimerCompare timer) elm xs = some ys) :
    InOrder timer ys ∧ ∀ x, x ∈ ys ↔ x = elm ∨ x ∈ xs := by
  induction xs generalizing ys with
  | nil =>
    cases hrun
    exact ⟨pairwise_singleton .., by simp⟩
  | cons x xs ih =>
    obtain ⟨hx, hxs⟩ := pairwise_cons.mp h
    rw [rbInsert] at hrun
    cases hc : uvTimerCompare timer elm x with
    | lt =>
      rw [hc] at hrun
      cases hrun
      refine ⟨pairwise_cons.mpr ⟨?_, h⟩, by simp⟩
      intro y hy
      rcases mem_cons.mp hy with rfl | hy
      · exact hc
      · exact uvTimerCompare_trans hc (hx y hy)
    | gt =>
      rw [hc] at hrun
      obtain ⟨zs, hzs, rfl⟩ := Option.map_eq_some_iff.mp hrun
      obtain ⟨hord, hmem⟩ := ih hxs hzs
      refine ⟨pairwise_cons.mpr ⟨fun y hy => ?_, hord⟩, fun y => ?_⟩
      · rcases (hmem y).mp hy with rfl | hy
        · exact (uvTimerCompare_gt_iff ..).mp hc
        · exact hx y hy
      · rw [mem_cons, hmem, mem_cons]
        tauto
    | eq =>
      rw [hc] at hrun
      cases hrun

/-! ## The invariant -/

structure TimersOk (l : UvLoop ι γ) : Prop where
  inOrder : InOrder l.timer l.timers
  mem : ∀ t, t ∈ l.timers ↔ (l.flags (.timer t)).active = true

variable {l l' : UvLoop ι γ} {t : ι}

/-- What an operation on the timer `t` may change. -/
structure TimerOnly (t : ι) (l l' : UvLoop ι γ) : Prop where
  rest : ∃ n f g xs c eg cb, l' = { l with activeHandles := n, flags := f, timer := g,
                                           timers := xs, timerCounter := c,
                                           endgameHandles := eg, closeCb := cb }
  flags : ∀ k, k ≠ .timer t → l'.flags k = l.flags k

section

omit [DecidableEq ι]

theorem timerOnly_refl : TimerOnly t l l := ⟨⟨_, _, _, _, _, _, _, rfl⟩, fun _ _ => rfl⟩

theorem TimerOnly.trans {l'' : UvLoop ι γ} (h : TimerOnly t l l') (h' : TimerOnly t l' l'') :
    TimerOnly t l l'' where
  rest := by
    obtain ⟨_, _, _, _, _, _, _, e⟩ := h.rest
    obtain ⟨_, _, _, _, _, _, _, e'⟩ := h'.rest
    rw [e', e]
    exact ⟨_, _, _, _, _, _, _, rfl⟩
  flags k hk := (h'.flags k hk).trans (h.flags k hk)

theorem TimerOnly.time (h : TimerOnly t l l') : l'.time = l.time := by
  obtain ⟨_, _, _, _, _, _, _, e⟩ := h.rest
  rw [e]

theorem OnlyFlags.timerOnly (h : OnlyFlags (.timer t) l l') : TimerOnly t l l' := by
  obtain ⟨_, _, e⟩ := h.rest
  exact ⟨⟨_, _, _, _, _, _, _, e⟩, h.flags⟩

end

theorem uvTimerStop_spec (H : TimersOk l) (hrun : uvTimerStop l t = .ok l') :
    TimerOnly t l l' ∧ TimersOk l' ∧ l'.timer = l.timer ∧ l'.timerCounter = l.timerCounter ∧
      (l'.flags (.timer t)).active = false := by
  unfold uvTimerStop uvIsActive at hrun
  split_ifs at hrun with ha
  · obtain ⟨honly, hoff⟩ := uvHandleStop_only hrun
    have hstart : TimerOnly t l { l with timers := rbRemove t l.timers } :=
      ⟨⟨_, _, _, _, _, _, _, rfl⟩, fun _ _ => rfl⟩
    have htotal := hstart.trans honly.timerOnly
    obtain ⟨n, f, rfl⟩ := honly.rest
    refine ⟨htotal, ⟨H.inOrder.sublist erase_sublist, fun s => ?_⟩, rfl, rfl, hoff⟩
    change (f (.timer t)).active = false at hoff
    change s ∈ l.timers.erase t ↔ (f (.timer s)).active = true
    rw [H.inOrder.nodup.mem_erase_iff, H.mem]
    by_cases hs : s = t
    · subst hs
      simp [hoff]
    · have hsame : f (.timer s) = l.flags (.timer s) :=
        htotal.flags (.timer s) (by simpa using hs)
      simp [hs, hsame]
  · cases hrun
    exact ⟨timerOnly_refl, H, rfl, rfl, by simpa using ha⟩

theorem timerStopIfActive_eq (l : UvLoop ι γ) (t : ι) :
    timerStopIfActive l t = uvTimerStop l t := by
  unfold timerStopIfActive uvTimerStop
  split_ifs <;> rfl

omit [DecidableEq ι] in
theorem timerInsert_spec (h : InOrder l.timer l.timers) (hrun : timerInsert l t = .ok l') :
    ∃ xs, l' = { l with timers := xs } ∧ InOrder l.timer xs ∧ ∀ x, x ∈ xs ↔ x = t ∨
      x ∈ l.timers := by
  unfold timerInsert at hrun
  cases hr : rbInsert (uvTimerCompare l.timer) t l.timers with
  | none =>
    rw [hr] at hrun
    cases hrun
  | some xs =>
    rw [hr] at hrun
    cases hrun
    exact ⟨xs, rfl, rbInsert_spec h hr⟩

theorem InOrder.update (h : InOrder timer xs) (ht : t ∉ xs)
    (v : UvTimer γ) : InOrder (update timer t v) xs := by
  refine h.imp_of_mem fun {a b} ha hb hab => ?_
  have hne : ∀ {c}, c ∈ xs → c ≠ t := fun hc e => ht (e ▸ hc)
  rwa [uvTimerCompare_congr (update_of_ne (hne ha) ..) (update_of_ne (hne hb) ..)]

theorem uvTimerStart_spec (H : TimersOk l) {cb : Option γ} (hcb : cb ≠ none)
    {timeout repeatMs : UInt64} {r : ℤ}
      (hrun : uvTimerStart l t cb timeout repeatMs = .ok (r, l')) :
    TimerOnly t l l' ∧ TimersOk l' ∧
      l'.timer = update l.timer t
        ⟨cb, getClampedDueTime l.time timeout, repeatMs, l.timerCounter⟩ ∧
      l'.timerCounter = l.timerCounter + 1 ∧ (l'.flags (.timer t)).active = true := by
  rw [uvTimerStart, if_neg hcb, timerStopIfActive_eq] at hrun
  obtain ⟨l1, hstop, hrun⟩ := bind_eq_ok.mp hrun
  obtain ⟨l2, hstart, hrun⟩ := bind_eq_ok.mp hrun
  obtain ⟨l3, hinsert, hrun⟩ := bind_eq_ok.mp hrun
  cases hrun
  obtain ⟨honly1, H1, htimer1, hcount1, hoff1⟩ := uvTimerStop_spec H hstop
  obtain ⟨honly2, hon⟩ := uvHandleStart_only hstart
  have hflags : ∀ k, k ≠ .timer t → l2.flags k = l1.flags k := honly2.flags
  obtain ⟨n, f, rfl⟩ := honly2.rest
  have htimer : (timerNumber { l1.setTimer t { l1.timer t with
        timerCb := cb
        due := getClampedDueTime l1.time timeout
        repeatMs := repeatMs } with
      activeHandles := n
      flags := f } t).timer = update l.timer t
        ⟨cb, getClampedDueTime l.time timeout, repeatMs, l.timerCounter⟩ := by
    rw [← htimer1, ← hcount1, ← honly1.time]
    simp [timerNumber, UvLoop.setTimer]
  have hfresh : t ∉ l1.timers := fun ht => by simp [(H1.mem t).mp ht] at hoff1
  obtain ⟨xs, rfl, hord, hmem⟩ := timerInsert_spec
    (by rw [htimer, ← htimer1]; exact H1.inOrder.update hfresh _) hinsert
  refine ⟨honly1.trans ⟨⟨_, _, _, _, _, _, _, rfl⟩, hflags⟩, ⟨hord, fun s => ?_⟩, htimer, ?_, hon⟩
  · change s ∈ xs ↔ (f (.timer s)).active = true
    rw [hmem]
    change s = t ∨ s ∈ l1.timers ↔ _
    rw [H1.mem]
    by_cases hs : s = t
    · subst hs
      simp [show (f (.timer s)).active = true from hon]
    · rw [show f (.timer s) = l1.flags (.timer s) from hflags _ (by simpa using hs)]
      simp [hs]
  · rw [← hcount1]
    rfl

theorem uvTimerAgain_spec (H : TimersOk l) {r : ℤ} (hrun : uvTimerAgain l t = .ok (r, l')) :
    if (l.timer t).timerCb ≠ none ∧ (l.timer t).repeatMs ≠ 0 then
      TimerOnly t l l' ∧ TimersOk l' ∧
        l'.timer = update l.timer t ⟨(l.timer t).timerCb,
          getClampedDueTime l.time (l.timer t).repeatMs, (l.timer t).repeatMs, l.timerCounter⟩ ∧
        l'.timerCounter = l.timerCounter + 1 ∧ (l'.flags (.timer t)).active = true
    else l' = l := by
  unfold uvTimerAgain at hrun
  split_ifs at hrun with hcb hrep
  · cases hrun
    rw [if_neg (fun h => h.1 hcb)]
  · obtain ⟨l1, hstop, hrun⟩ := bind_eq_ok.mp hrun
    obtain ⟨⟨r2, l2⟩, hstart, hrun⟩ := bind_eq_ok.mp hrun
    cases hrun
    obtain ⟨honly1, H1, htimer1, hcount1, _⟩ := uvTimerStop_spec H hstop
    rw [htimer1] at hstart
    obtain ⟨honly2, H2, htimer2, hcount2, hon⟩ := uvTimerStart_spec H1 hcb hstart
    rw [if_pos ⟨hcb, hrep⟩]
    refine ⟨honly1.trans honly2, H2, ?_, by rw [hcount2, hcount1], hon⟩
    rw [htimer2, htimer1, honly1.time, hcount1]
  · cases hrun
    rw [if_neg (fun h => hrep h.2)]

omit [DecidableEq ι] in
theorem TimersOk.of_eq (H : TimersOk l) (htimers : l'.timers = l.timers)
    (htimer : l'.timer = l.timer)
    (hactive : ∀ t, (l'.flags (.timer t)).active = (l.flags (.timer t)).active) : TimersOk l' := by
  refine ⟨?_, fun t => ?_⟩
  · rw [htimers, htimer]
    exact H.inOrder
  · rw [htimers, hactive]
    exact H.mem t

theorem uvWantEndgame_only {h : Handle ι} :
    (∃ eg f, uvWantEndgame l h = { l with endgameHandles := eg, flags := f }) ∧
      (∀ k, k ≠ h → (uvWantEndgame l h).flags k = l.flags k) ∧
      ((uvWantEndgame l h).flags h).active = (l.flags h).active := by
  unfold uvWantEndgame
  dsimp only
  split_ifs
  · exact ⟨⟨_, _, rfl⟩, fun _ _ => rfl, rfl⟩
  · exact ⟨⟨_, _, rfl⟩, fun _ hk => update_of_ne hk .., by simp⟩

theorem uvClose_timer_spec (H : TimersOk l) {closeCb : Option γ}
    (hrun : uvClose l (.timer t) closeCb = .ok l') :
    TimerOnly t l l' ∧ TimersOk l' ∧ l'.timer = l.timer ∧ l'.timerCounter = l.timerCounter ∧
      (l'.flags (.timer t)).active = false := by
  unfold uvClose at hrun
  split_ifs at hrun with hclosing
  obtain ⟨l1, hstop, hrun⟩ := bind_eq_ok.mp hrun
  obtain ⟨l2, hmark, hrun⟩ := bind_eq_ok.mp hrun
  cases hrun
  have H0 : TimersOk { l with closeCb := update l.closeCb (.timer t) closeCb } :=
    H.of_eq rfl rfl fun _ => rfl
  obtain ⟨honly1, H1, htimer1, hcount1, hoff1⟩ := uvTimerStop_spec H0 hstop
  obtain ⟨honly2, hoff2⟩ := uvHandleClosing_only hmark
  have hflags2 := honly2.flags
  obtain ⟨n, f, rfl⟩ := honly2.rest
  obtain ⟨⟨eg, g, hrest⟩, hflags3, hoff3⟩ :=
    uvWantEndgame_only (l := { l1 with activeHandles := n, flags := f }) (h := .timer t)
  rw [hrest] at hflags3 hoff3 ⊢
  have hoff : (g (.timer t)).active = false := hoff3.trans hoff2
  have hflags : ∀ k, k ≠ .timer t → g k = l1.flags k :=
    fun k hk => (hflags3 k hk).trans (hflags2 k hk)
  have hclose : TimerOnly t l { l with closeCb := update l.closeCb (.timer t) closeCb } :=
    ⟨⟨_, _, _, _, _, _, _, rfl⟩, fun _ _ => rfl⟩
  refine ⟨hclose.trans (honly1.trans ⟨⟨_, _, _, _, _, _, _, rfl⟩, hflags⟩),
    H1.of_eq rfl rfl fun s => ?_, htimer1, hcount1, hoff⟩
  by_cases hs : s = t
  · rw [hs, hoff1]
    exact hoff
  · exact congrArg HandleFlags.active (hflags (.timer s) (by simpa using hs))

omit [DecidableEq ι] in
theorem TimersOk.earliest (H : TimersOk l) :
    (rbMin l.timers = none ↔ ∀ t, (l.flags (.timer t)).active = false) ∧
      ∀ m, rbMin l.timers = some m → (l.flags (.timer m)).active = true ∧
        ∀ t, (l.flags (.timer t)).active = true →
          (l.timer m).due.toNat ≤ (l.timer t).due.toNat := by
  rw [rbMin]
  cases hxs : l.timers with
  | nil =>
    refine ⟨⟨fun _ t => ?_, fun _ => rfl⟩, by simp⟩
    rw [← Bool.not_eq_true, ← H.mem, hxs]
    exact not_mem_nil
  | cons x xs =>
    have hx := (H.mem x).mp (by simp [hxs])
    refine ⟨⟨by simp, fun h => by simp [h x] at hx⟩, ?_⟩
    intro m hm
    cases hm
    refine ⟨hx, fun t ht => ?_⟩
    have hord := H.inOrder
    rw [hxs] at hord
    rcases mem_cons.mp (hxs ▸ (H.mem t).mpr ht) with rfl | hmem
    · exact le_rfl
    · have hlt := (pairwise_cons.mp hord).1 t hmem
      rw [uvTimerCompare_lt_iff] at hlt
      omega

end LibuvWorks.Win
