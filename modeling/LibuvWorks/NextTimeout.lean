import LibuvWorks.Unix.TimerLimits
import LibuvWorks.Win.TimerSpec

/-!
# The poll timeout of the timers on both backends

`TimerRuns T u w` are the pairs of a unix and a Windows loop that the same calls
lead to. The two loops always hold the same timers; what `uv__next_timeout`
answers for them differs in more than the width of the result once the earliest
due time is too far from the loop time for a signed difference.
-/
namespace LibuvWorks

open Function

variable {ι γ : Type*} [DecidableEq ι]

/-- The calls of a timer callback on Windows. -/
def execWin (l : Win.UvLoop ι γ) : Unix.TimerOp ι γ → Except Fault (Win.UvLoop ι γ)
  | .start t cb timeout repeatMs => Except.map Prod.snd (Win.uvTimerStart l t cb timeout repeatMs)
  | .stop t => Win.uvTimerStop l t
  | .again t => Except.map Prod.snd (Win.uvTimerAgain l t)
  | .close t closeCb => Win.uvClose l (.timer t) closeCb

/-- Two loops at the same time whose timers are initialised and were never started. -/
structure FreshLoops (u : Unix.UvLoop ι γ) (w : Win.UvLoop ι γ) : Prop where
  time : w.time = u.time
  heap : ∃ h, u.timerHeap = heapInit h
  timers : w.timers = []
  counter : u.timerCounter = 0 ∧ w.timerCounter = 0
  inactive : ∀ t, (u.flags (.timer t)).active = false ∧ (w.flags (.timer t)).active = false
  timer : ∀ t, (u.timer t).timerCb = none ∧ (u.timer t).repeatMs = 0 ∧
    (w.timer t).timerCb = none ∧ (w.timer t).repeatMs = 0

/-- The loops that calls on timers of `T` and updates of the clock lead to. -/
inductive TimerRuns (T : Finset ι) : Unix.UvLoop ι γ → Win.UvLoop ι γ → Prop
  | fresh {u : Unix.UvLoop ι γ} {w : Win.UvLoop ι γ} : FreshLoops u w → TimerRuns T u w
  | call {u u' : Unix.UvLoop ι γ} {w w' : Win.UvLoop ι γ} (op : Unix.TimerOp ι γ) :
      TimerRuns T u w → op.timer ∈ T → op.exec u = .ok u' → execWin w op = .ok w' →
      TimerRuns T u' w'
  | clock {u : Unix.UvLoop ι γ} {w w' : Win.UvLoop ι γ} (t : UInt64) : TimerRuns T u w →
      Win.uvUpdateTime w t = .ok w' → TimerRuns T { u with time := t } w'

structure SameTimers (T : Finset ι) (u : Unix.UvLoop ι γ) (w : Win.UvLoop ι γ) : Prop where
  unixOk : Unix.TimersOk T u
  winOk : Win.TimersOk w
  time : w.time = u.time
  counter : w.timerCounter = u.timerCounter
  active : ∀ t, (w.flags (.timer t)).active = (u.flags (.timer t)).active
  cb : ∀ t, (w.timer t).timerCb = (u.timer t).timerCb
  rep : ∀ t, (w.timer t).repeatMs = (u.timer t).repeatMs
  due : ∀ t, (u.flags (.timer t)).active = true → (w.timer t).due = (u.timer t).timeout

variable {T : Finset ι} {u u' : Unix.UvLoop ι γ} {w w' : Win.UvLoop ι γ} {t : ι}

theorem FreshLoops.sameTimers [Inhabited ι] (h : FreshLoops u w) : SameTimers T u w := by
  obtain ⟨heap, hheap⟩ := h.heap
  have hempty : Unix.activeTimers T u = ∅ := by simp [Unix.activeTimers, h.inactive]
  refine ⟨⟨?_, fun t ht => ?_, fun t ht => ?_⟩, ⟨?_, fun t => ?_⟩, h.time, ?_, fun t => ?_,
    fun t => ?_, fun t => ?_, fun t ht => ?_⟩
  · rw [hheap, hempty]
    exact isHeap_init heap
  · simp [(h.inactive t).1] at ht
  · simp [(h.inactive t).1] at ht
  · rw [h.timers]
    exact .nil
  · simp [h.timers, (h.inactive t).2]
  · rw [h.counter.1, h.counter.2]
  · rw [(h.inactive t).1, (h.inactive t).2]
  · rw [(h.timer t).1, (h.timer t).2.2.1]
  · rw [(h.timer t).2.1, (h.timer t).2.2.2]
  · simp [(h.inactive t).1] at ht

theorem SameTimers.of_only (S : SameTimers T u w) (htime : u'.time = u.time)
    (hu : ∀ s, s ≠ t → Unix.SameTimer u u' s) (hw : Win.TimerOnly t w w')
    (hwt : ∀ s, s ≠ t → w'.timer s = w.timer s) (Hu : Unix.TimersOk T u') (Hw : Win.TimersOk w')
    (hcount : w'.timerCounter = u'.timerCounter)
    (hactive : (w'.flags (.timer t)).active = (u'.flags (.timer t)).active)
    (hcb : (w'.timer t).timerCb = (u'.timer t).timerCb)
    (hrep : (w'.timer t).repeatMs = (u'.timer t).repeatMs)
    (hdue : (u'.flags (.timer t)).active = true → (w'.timer t).due = (u'.timer t).timeout) :
    SameTimers T u' w' := by
  refine ⟨Hu, Hw, by rw [hw.time, htime, S.time], hcount, fun s => ?_, fun s => ?_, fun s => ?_,
    fun s hs => ?_⟩
  all_goals by_cases hst : s = t
  · exact hst ▸ hactive
  · rw [hw.flags (.timer s) (by simpa using hst), (hu s hst).2, S.active]
  · exact hst ▸ hcb
  · rw [hwt s hst, (hu s hst).1, S.cb]
  · exact hst ▸ hrep
  · rw [hwt s hst, (hu s hst).1, S.rep]
  · subst hst
    exact hdue hs
  · rw [(hu s hst).2] at hs
    rw [hwt s hst, (hu s hst).1, S.due s hs]

theorem SameTimers.call (hT : T.card ≤ 2 ^ 32 - 1) (S : SameTimers T u w) {op : Unix.TimerOp ι γ}
    (ht : op.timer ∈ T) (hu : op.exec u = .ok u') (hw : execWin w op = .ok w') :
    SameTimers T u' w' := by
  cases op with
  | start t cb timeout repeatMs =>
    by_cases hcb : cb = none
    · subst hcb
      cases hu
      cases hw
      exact S
    · obtain ⟨u1, hstart, Hu, hon, htimer, hcount⟩ :=
        Unix.uvTimerStart_spec (t := t) S.unixOk hT ht hcb timeout repeatMs
      rw [Unix.TimerOp.exec, hstart] at hu
      cases hu
      rw [execWin] at hw
      cases hrun : Win.uvTimerStart w t cb timeout repeatMs with
      | error e =>
        rw [hrun] at hw
        cases hw
      | ok r =>
        rw [hrun] at hw
        cases hw
        obtain ⟨honly, Hw, htimer', hcount', hon'⟩ := Win.uvTimerStart_spec S.winOk hcb hrun
        refine S.of_only (Unix.uvTimerStart_only hstart).time
          (fun s hs => (Unix.uvTimerStart_only hstart).sameTimer hs) honly
          (fun s hs => by rw [htimer', update_of_ne hs]) Hu Hw
          (by rw [hcount', hcount, S.counter]) (by rw [hon, hon']) ?_ ?_ fun _ => ?_
        all_goals rw [htimer', update_self, htimer]
        rw [S.time]
        rfl
  | stop t =>
    obtain ⟨u1, hstop, Hu, htimer, hcount, hoff⟩ := Unix.uvTimerStop_spec S.unixOk hT t
    obtain rfl : u1 = u' := Except.ok.inj (hstop.symm.trans hu)
    obtain ⟨honly, Hw, htimer', hcount', hoff'⟩ := Win.uvTimerStop_spec S.winOk hw
    exact S.of_only (Unix.uvTimerStop_only hstop).time
      (fun s hs => (Unix.uvTimerStop_only hstop).sameTimer hs) honly (fun s _ => by rw [htimer']) Hu Hw
      (by rw [hcount', hcount, S.counter]) (by rw [hoff, hoff']) (by rw [htimer', htimer, S.cb])
      (by rw [htimer', htimer, S.rep]) (fun hon => by simp [hoff] at hon)
  | again t =>
    rw [execWin] at hw
    cases hrun : Win.uvTimerAgain w t with
    | error e =>
      rw [hrun] at hw
      cases hw
    | ok r =>
      rw [hrun] at hw
      cases hw
      have hwin := Win.uvTimerAgain_spec S.winOk hrun
      rw [S.cb, S.rep] at hwin
      by_cases hcb : (u.timer t).timerCb = none
      · rw [if_neg fun h => h.1 hcb] at hwin
        rw [Unix.TimerOp.exec, Unix.uvTimerAgain, if_pos hcb] at hu
        cases hu
        exact hwin ▸ S
      · by_cases hrep : (u.timer t).repeatMs = 0
        · rw [if_neg fun h => h.2 hrep] at hwin
          rw [Unix.TimerOp.exec, Unix.uvTimerAgain_of_once hcb hrep] at hu
          cases hu
          exact hwin ▸ S
        · obtain ⟨u1, hagain, Hu, hon, htimer, hcount⟩ :=
            Unix.uvTimerAgain_spec (t := t) S.unixOk hT ht hcb hrep
          rw [Unix.TimerOp.exec, hagain] at hu
          cases hu
          rw [if_pos ⟨hcb, hrep⟩] at hwin
          obtain ⟨honly, Hw, htimer', hcount', hon'⟩ := hwin
          refine S.of_only (Unix.uvTimerAgain_only hagain).time
            (fun s hs => (Unix.uvTimerAgain_only hagain).sameTimer hs) honly
            (fun s hs => by rw [htimer', update_of_ne hs]) Hu Hw
            (by rw [hcount', hcount, S.counter]) (by rw [hon, hon']) ?_ ?_ fun _ => ?_
          all_goals rw [htimer', update_self, htimer]
          rw [S.time]
          rfl
  | close t closeCb =>
    by_cases hopen : Unix.Closing u t
    · have hfail : Unix.uvClose u (.timer t) closeCb = .error .assertion := if_pos hopen
      rw [Unix.TimerOp.exec, hfail] at hu
      cases hu
    · obtain ⟨u1, hclose, E, htimer, hcount, hoff⟩ :=
        Unix.uvClose_timer_spec S.unixOk hT hopen closeCb
      obtain rfl : u1 = u' := Except.ok.inj (hclose.symm.trans hu)
      obtain ⟨honly, Hw, htimer', hcount', hoff'⟩ := Win.uvClose_timer_spec S.winOk hw
      have hkept : ∀ s, s ≠ t → Unix.SameTimer u u1 s := fun s hs =>
        E.kept s fun op hop hc => hs (by rw [List.mem_singleton.mp hop] at hc; exact hc.symm)
      exact S.of_only E.time hkept honly (fun s _ => by rw [htimer']) E.ok Hw
        (by rw [hcount', hcount, S.counter]) (by rw [hoff, hoff']) (by rw [htimer', htimer, S.cb])
        (by rw [htimer', htimer, S.rep]) (fun hon => by simp [hoff] at hon)

theorem TimerRuns.sameTimers [Inhabited ι] (hT : T.card ≤ heapCapacity) (h : TimerRuns T u w) :
    SameTimers T u w := by
  induction h with
  | fresh h => exact h.sameTimers
  | call op _ ht hu hw ih => exact ih.call hT ht hu hw
  | clock t _ hrun ih =>
    unfold Win.uvUpdateTime at hrun
    split_ifs at hrun
    cases hrun
    exact ⟨ih.unixOk.of_eq rfl rfl fun _ => rfl, ih.winOk.of_eq rfl rfl fun _ => rfl, rfl,
      ih.counter, ih.active, ih.cb, ih.rep, ih.due⟩

/-! ## The answers of the two backends -/

/-- `m` is an active timer, and none is due before it. -/
def Earliest (u : Unix.UvLoop ι γ) (m : ι) : Prop :=
  (u.flags (.timer m)).active = true ∧
    ∀ t, (u.flags (.timer t)).active = true → (u.timer m).timeout.toNat ≤ (u.timer t).timeout.toNat

/-- The answer `r` is `infinite` without timers, 0 when the earliest timer is due, and
else the time until then, cut off at `limit`. -/
structure ExactTimeout (u : Unix.UvLoop ι γ) (infinite : ℤ) (limit : ℕ) (r : ℤ) : Prop where
  infinite_iff : r = infinite ↔ ∀ t, (u.flags (.timer t)).active = false
  zero_iff : ∀ m, Earliest u m → (r = 0 ↔ (u.timer m).timeout.toNat ≤ u.time.toNat)
  between : ∀ m, Earliest u m → u.time.toNat < (u.timer m).timeout.toNat →
    1 ≤ r ∧ r ≤ (u.timer m).timeout.toNat - u.time.toNat
  cut : ∀ m, Earliest u m → r = min ((u.timer m).timeout.toNat - u.time.toNat : ℕ) limit

def NextTimeoutsAgree (u : Unix.UvLoop ι γ) (w : Win.UvLoop ι γ) : Prop :=
  ExactTimeout u (-1) Unix.intMax (Unix.uvNextTimeout u) ∧
    ExactTimeout u Win.infinite (Win.uintMax - 1) (Win.uvNextTimeout w)

omit [DecidableEq ι] in
/-- The cut off time until the earliest timer is all there is to an exact answer. -/
theorem ExactTimeout.of_cut {infinite : ℤ} {limit : ℕ} {r : ℤ} (hlimit : 1 ≤ limit)
    (hinfinite : infinite < 0 ∨ limit < infinite)
    (hnone : (∀ t, (u.flags (.timer t)).active = false) → r = infinite)
    (hsome : (∀ t, (u.flags (.timer t)).active = false) ∨ ∃ m, Earliest u m)
    (hcut : ∀ m, Earliest u m →
      r = min ((u.timer m).timeout.toNat - u.time.toNat : ℕ) limit) :
    ExactTimeout u infinite limit r := by
  refine ⟨⟨fun hr => ?_, hnone⟩, fun m hm => ?_, fun m hm hlt => ?_, hcut⟩
  · rcases hsome with hoff | ⟨m, hm⟩
    · exact hoff
    · have := hcut m hm
      omega
  · have := hcut m hm
    omega
  · have := hcut m hm
    omega

omit [DecidableEq ι] in
theorem Earliest.timeout_eq {m m' : ι} (h : Earliest u m) (h' : Earliest u m') :
    (u.timer m).timeout.toNat = (u.timer m').timeout.toNat :=
  Nat.le_antisymm (h.2 m' h'.1) (h'.2 m h.1)

theorem earliest_of_heapMin (H : Unix.TimersOk T u) {m : ι} (hm : heapMin u.timerHeap = some m) :
    Earliest u m := by
  obtain ⟨ha, hleast⟩ := H.earliest.2 m hm
  refine ⟨ha, fun t ht => ?_⟩
  have hlt := hleast t ht
  rw [← Bool.not_eq_true, Unix.timerLessThan_iff] at hlt
  omega

theorem none_or_earliest (H : Unix.TimersOk T u) :
    (∀ t, (u.flags (.timer t)).active = false) ∨ ∃ m, Earliest u m := by
  cases hm : heapMin u.timerHeap with
  | none => exact .inl (H.earliest.1.mp hm)
  | some m => exact .inr ⟨m, earliest_of_heapMin H hm⟩

theorem unix_exact (H : Unix.TimersOk T u) :
    ExactTimeout u (-1) Unix.intMax (Unix.uvNextTimeout u) := by
  refine .of_cut (by decide) (.inl (by decide)) (fun hoff => ?_) (none_or_earliest H) fun m hm => ?_
  · rw [Unix.uvNextTimeout, H.earliest.1.mpr hoff]
  · rw [Unix.uvNextTimeout]
    cases hmin : heapMin u.timerHeap with
    | none => exact absurd hm.1 (by simp [H.earliest.1.mp hmin m])
    | some m' =>
      rw [hm.timeout_eq (earliest_of_heapMin H hmin)]
      dsimp only
      split_ifs with hle hbig
      · rw [UInt64.le_iff_toNat_le] at hle
        omega
      · rw [UInt64.le_iff_toNat_le] at hle
        rw [UInt64.toNat_sub_of_le _ _ (UInt64.le_iff_toNat_le.mpr (by omega))] at hbig
        omega
      · rw [UInt64.le_iff_toNat_le] at hle
        rw [UInt64.toNat_sub_of_le _ _ (UInt64.le_iff_toNat_le.mpr (by omega))] at hbig ⊢
        omega

/-- The difference of the earliest due time and the loop time fits an `int64_t`. -/
def FitsInt64 (u : Unix.UvLoop ι γ) : Prop :=
  ∀ m, Earliest u m → u.time.toNat ≤ (u.timer m).timeout.toNat + 2 ^ 63 ∧
    (u.timer m).timeout.toNat < u.time.toNat + 2 ^ 63

theorem toInt64_sub (a b : UInt64) :
    (b.toNat ≤ a.toNat + 2 ^ 63 → a.toNat < b.toNat + 2 ^ 63 →
      Win.toInt64 (a - b) = a.toNat - b.toNat) ∧
    (b.toNat + 2 ^ 63 ≤ a.toNat → Win.toInt64 (a - b) < 0) ∧
    (a.toNat + 2 ^ 63 < b.toNat → 0 < Win.toInt64 (a - b)) := by
  have ha := a.toNat_lt
  have hb := b.toNat_lt
  have hsub : (a - b).toNat = (2 ^ 64 - b.toNat + a.toNat) % 2 ^ 64 := UInt64.toNat_sub a b
  unfold Win.toInt64
  refine ⟨fun h1 h2 => ?_, fun h => ?_, fun h => ?_⟩ <;> split_ifs <;> omega

theorem win_nextTimeout (S : SameTimers T u w) {m : ι} (hm : Earliest u m) :
    ∃ delta, delta = Win.toInt64 ((u.timer m).timeout - u.time) ∧
      Win.uvNextTimeout w = if delta ≥ (Win.uintMax - 1 : ℕ) then Win.uintMax - 1
        else if delta < 0 then 0 else delta.toNat := by
  have hon : (w.flags (.timer m)).active = true := by rw [S.active, hm.1]
  refine ⟨_, rfl, ?_⟩
  rw [Win.uvNextTimeout]
  cases hmin : Win.rbMin w.timers with
  | none => exact absurd hon (by simp [S.winOk.earliest.1.mp hmin m])
  | some m' =>
    obtain ⟨ha, hleast⟩ := S.winOk.earliest.2 m' hmin
    have ha' : (u.flags (.timer m')).active = true := by rw [← S.active, ha]
    have hle := hleast m hon
    rw [S.due m hm.1, S.due m' ha'] at hle
    have hdue : (w.timer m').due = (u.timer m).timeout := by
      rw [S.due m' ha']
      exact UInt64.toNat_inj.mp (Nat.le_antisymm hle (hm.2 m' ha'))
    simp only [hdue, S.time]

/-- The Windows answer is exact just when the signed difference does not overflow. -/
theorem win_exact_iff (S : SameTimers T u w) :
    ExactTimeout u Win.infinite (Win.uintMax - 1) (Win.uvNextTimeout w) ↔ FitsInt64 u := by
  constructor
  · intro E m hm
    obtain ⟨delta, hdelta, hrun⟩ := win_nextTimeout S hm
    obtain ⟨_, hneg, hpos⟩ := toInt64_sub (u.timer m).timeout u.time
    have hzero := E.zero_iff m hm
    rw [hrun] at hzero
    have hmax : Win.uintMax - 1 = 4294967294 := rfl
    split_ifs at hzero <;> omega
  · intro hfits
    refine .of_cut (by decide) (.inr (by decide)) (fun hoff => ?_) (none_or_earliest S.unixOk)
      fun m hm => ?_
    · rw [Win.uvNextTimeout, S.winOk.earliest.1.mpr fun t => by rw [S.active, hoff]]
    · obtain ⟨delta, hdelta, hrun⟩ := win_nextTimeout S hm
      obtain ⟨h1, h2⟩ := hfits m hm
      rw [(toInt64_sub _ _).1 h1 h2] at hdelta
      rw [hrun]
      have hmax : Win.uintMax - 1 = 4294967294 := rfl
      split_ifs <;> omega

/-! ## One timer -/

/-- A Windows loop without active handles. -/
def winIdleLoop (time : UInt64) : Win.UvLoop ℕ Unit where
  time := time
  stopFlag := false
  activeHandles := 0
  activeReqs := 0
  endgameHandles := []
  pendingReqs := []
  watcherHandles _ := []
  nextWatcher _ := none
  timers := []
  timerCounter := 0
  flags _ := ⟨false, true, false, false, false⟩
  timer _ := ⟨none, 0, 0, 0⟩
  watcherCb _ _ := none
  closeCb _ := none
  reqsPending _ := 0

theorem freshLoops (time : UInt64) : FreshLoops (Unix.idleLoop time) (winIdleLoop time) where
  time := rfl
  heap := ⟨_, rfl⟩
  timers := rfl
  counter := ⟨rfl, rfl⟩
  inactive _ := ⟨rfl, rfl⟩
  timer _ := ⟨rfl, rfl, rfl, rfl⟩

theorem oneTimer (timeout : UInt64) : ∃ u w, TimerRuns {0} u w ∧ Earliest u 0 ∧
    u.time = 0 ∧ (u.timer 0).timeout = Unix.clampedTimeout 0 timeout ∧
    execWin (winIdleLoop 0) (.start 0 (some ()) timeout 0) = .ok w := by
  obtain ⟨u, hstart, H, hon, htimer, _⟩ := Unix.uvTimerStart_spec (T := {0}) (t := 0)
    (Unix.idleLoop_ok _ 0) (by decide) (by decide) (Option.some_ne_none ()) timeout 0
  have hexec : Unix.TimerOp.exec (Unix.idleLoop 0) (.start 0 (some ()) timeout 0) = .ok u := by
    rw [Unix.TimerOp.exec, hstart]
    rfl
  refine ⟨u, _, .call (.start 0 (some ()) timeout 0) (.fresh (freshLoops 0))
    (Finset.mem_singleton_self 0) hexec rfl,
    ⟨hon, fun t ht => ?_⟩, (Unix.uvTimerStart_only hstart).time, by rw [htimer]; rfl, rfl⟩
  rw [Finset.mem_singleton.mp (H.mem t ht)]

/-- In every state that calls on at most `2 ^ 32 - 1` timers lead to, the answers of the
backends are exact and differ only by their width just when the difference of the
earliest due time and the loop time fits an `int64_t`. -/
theorem uvNextTimeout_agree_iff [Inhabited ι] (hT : T.card ≤ heapCapacity) (h : TimerRuns T u w) :
    NextTimeoutsAgree u w ↔ FitsInt64 u := by
  have S := h.sameTimers hT
  exact ⟨fun E => (win_exact_iff S).mp E.2,
    fun hf => ⟨unix_exact S.unixOk, (win_exact_iff S).mpr hf⟩⟩

/-- A timer that is due in five milliseconds. -/
theorem uvNextTimeout_agree_five : ∃ (u : Unix.UvLoop ℕ Unit) (w : Win.UvLoop ℕ Unit),
    TimerRuns {0} u w ∧ NextTimeoutsAgree u w := by
  obtain ⟨u, w, hruns, hearliest, htime, hdue, _⟩ := oneTimer 5
  have hfits : FitsInt64 u := fun m hm => by
    rw [hm.timeout_eq hearliest, htime, hdue]
    decide
  exact ⟨u, w, hruns, (uvNextTimeout_agree_iff (by decide) hruns).mpr hfits⟩

/-- A due time saturated to `UINT64_MAX`: Windows answers 0 long before it is due. -/
theorem uvNextTimeout_saturated : ∃ (u : Unix.UvLoop ℕ Unit) (w : Win.UvLoop ℕ Unit),
    TimerRuns {0} u w ∧ Earliest u 0 ∧ u.time = 0 ∧
    (u.timer 0).timeout = Unix.uint64Max ∧ Unix.uvNextTimeout u = Unix.intMax ∧
    Win.uvNextTimeout w = 0 ∧ ¬ NextTimeoutsAgree u w := by
  obtain ⟨u, w, hruns, hearliest, htime, hdue, hexec⟩ := oneTimer Unix.uint64Max
  have S := hruns.sameTimers (by decide)
  have hlast : (u.timer 0).timeout = Unix.uint64Max := by rw [hdue]; rfl
  have hwin : Win.uvNextTimeout w = 0 := by
    cases hexec
    rfl
  have hmax : Unix.uint64Max.toNat = 2 ^ 64 - 1 := rfl
  refine ⟨u, w, hruns, hearliest, htime, hlast, ?_, hwin, fun E => ?_⟩
  · rw [(unix_exact S.unixOk).cut 0 hearliest, htime, hlast]
    rfl
  · have hfits := ((win_exact_iff S).mp E.2 0 hearliest).2
    rw [hlast, htime, hmax, UInt64.toNat_zero] at hfits
    omega

end LibuvWorks
