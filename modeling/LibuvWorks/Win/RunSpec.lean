import LibuvWorks.Win.Run
import LibuvWorks.Win.TimerSpec

/-!
# The watcher lists at every step of the Windows loop

A watcher is active exactly when it is in the list of its kind.
-/
namespace LibuvWorks.Win

open Function (update update_of_ne update_self)
open Transition

variable {ι γ : Type*} [DecidableEq ι]

def WatchersOk (l : UvLoop ι γ) : Prop :=
  ∀ k, (l.watcherHandles k).Nodup ∧
    ∀ w, (l.flags (.watcher k w)).active = true ↔ w ∈ l.watcherHandles k

variable {l l' : UvLoop ι γ} {k : WatcherKind} {w : ι} {h : Handle ι} {t : ι} {r : ℤ}
  {ops : List (LoopOp ι γ)}

omit [DecidableEq ι] in
theorem WatchersOk.of_eq (H : WatchersOk l) (hq : l'.watcherHandles = l.watcherHandles)
    (ha : ∀ k w, (l'.flags (.watcher k w)).active = (l.flags (.watcher k w)).active) :
    WatchersOk l' := by
  intro k
  rw [hq]
  exact ⟨(H k).1, fun w => by rw [ha, (H k).2]⟩

theorem WatchersOk.setFlags (H : WatchersOk l) {v : HandleFlags}
    (ha : v.active = (l.flags h).active) : WatchersOk (l.setFlags h v) := by
  refine H.of_eq rfl fun k w => ?_
  by_cases hw : Handle.watcher k w = h
  · rw [hw, UvLoop.setFlags_flags, update_self, ha]
  · rw [UvLoop.setFlags_flags, update_of_ne hw]

omit [DecidableEq ι] in
theorem OnlyFlags.watchersOk (ho : OnlyFlags h l l') (H : WatchersOk l)
    (ha : (l'.flags h).active = (l.flags h).active ∨ ∀ k w, h ≠ .watcher k w) : WatchersOk l' := by
  have hflags := ho.flags
  obtain ⟨n, f, rfl⟩ := ho.rest
  refine H.of_eq rfl fun k w => ?_
  by_cases hw : Handle.watcher k w = h
  · rw [hw]
    rcases ha with ha | ha
    · exact ha
    · exact absurd hw.symm (ha k w)
  · rw [hflags _ hw]

omit [DecidableEq ι] in
theorem TimerOnly.watchersOk (ho : TimerOnly t l l') (H : WatchersOk l) : WatchersOk l' := by
  have hflags := ho.flags
  obtain ⟨_, _, _, _, _, _, _, rfl⟩ := ho.rest
  exact H.of_eq rfl fun k w => by rw [hflags _ (by simp)]

/-! ## The operations -/

theorem map_snd_eq_ok {α β : Type*} {x : Except Fault (α × β)} {b : β}
    (hx : Except.map Prod.snd x = .ok b) : ∃ a, x = .ok (a, b) := by
  cases x with
  | error e => cases hx
  | ok p =>
    cases hx
    exact ⟨p.1, rfl⟩

theorem uvTimerStop_only (hrun : uvTimerStop l t = .ok l') : TimerOnly t l l' := by
  unfold uvTimerStop at hrun
  split_ifs at hrun
  · refine TimerOnly.trans ?_ (uvHandleStop_only hrun).1.timerOnly
    exact ⟨⟨_, _, _, _, _, _, _, rfl⟩, fun _ _ => rfl⟩
  · cases hrun
    exact timerOnly_refl

theorem uvTimerStart_only {cb : Option γ} {timeout repeatMs : UInt64}
    (hrun : uvTimerStart l t cb timeout repeatMs = .ok (r, l')) : TimerOnly t l l' := by
  unfold uvTimerStart at hrun
  split_ifs at hrun
  · cases hrun
    exact timerOnly_refl
  · rw [timerStopIfActive_eq] at hrun
    obtain ⟨l1, hstop, hrun⟩ := bind_eq_ok.mp hrun
    obtain ⟨l2, hstart, hrun⟩ := bind_eq_ok.mp hrun
    obtain ⟨l3, hinsert, hrun⟩ := bind_eq_ok.mp hrun
    cases hrun
    refine (uvTimerStop_only hstop).trans (TimerOnly.trans ?_
      ((uvHandleStart_only hstart).1.timerOnly.trans ?_))
    · exact ⟨⟨_, _, _, _, _, _, _, rfl⟩, fun _ _ => rfl⟩
    · unfold timerInsert at hinsert
      split at hinsert
      · cases hinsert
      · cases hinsert
        exact ⟨⟨_, _, _, _, _, _, _, rfl⟩, fun _ _ => rfl⟩

theorem uvTimerAgain_only (hrun : uvTimerAgain l t = .ok (r, l')) : TimerOnly t l l' := by
  unfold uvTimerAgain at hrun
  split_ifs at hrun
  · cases hrun
    exact timerOnly_refl
  · obtain ⟨l1, hstop, hrun⟩ := bind_eq_ok.mp hrun
    obtain ⟨⟨r2, l2⟩, hstart, hrun⟩ := bind_eq_ok.mp hrun
    cases hrun
    exact (uvTimerStop_only hstop).trans (uvTimerStart_only hstart)
  · cases hrun
    exact timerOnly_refl

theorem uvWatcherStart_ok {cb : Option γ} (H : WatchersOk l)
    (hrun : uvWatcherStart l k w cb = .ok (r, l')) : WatchersOk l' := by
  unfold uvWatcherStart at hrun
  split_ifs at hrun with ha hcb
  · cases hrun
    exact H
  · cases hrun
    exact H
  obtain ⟨l1, hstart, hrun⟩ := bind_eq_ok.mp hrun
  cases hrun
  obtain ⟨honly, hon⟩ := uvHandleStart_only hstart
  have hf := honly.flags
  obtain ⟨n, f, rfl⟩ := honly.rest
  replace hf : ∀ v, v ≠ .watcher k w → f v = l.flags v := hf
  have hon : (f (.watcher k w)).active = true := hon
  have hoff : (l.flags (.watcher k w)).active = false := by simpa [uvIsActive] using ha
  intro k'
  change (update l.watcherHandles k (w :: l.watcherHandles k) k').Nodup ∧
    ∀ v, (f (.watcher k' v)).active = true ↔
      v ∈ update l.watcherHandles k (w :: l.watcherHandles k) k'
  obtain ⟨hnodup, hmem⟩ := H k'
  by_cases hk : k' = k
  · subst hk
    rw [update_self]
    refine ⟨List.nodup_cons.mpr ⟨fun hw => by simp [(hmem w).mpr hw] at hoff, hnodup⟩, fun v => ?_⟩
    by_cases hv : v = w
    · subst hv
      simp [hon]
    · rw [hf _ (by simpa using hv), hmem]
      simp [hv]
  · rw [update_of_ne hk]
    exact ⟨hnodup, fun v => by rw [hf _ (by simp [hk]), hmem]⟩

theorem unlinkWatcher_eq :
    (unlinkWatcher l k w).flags = l.flags ∧ (unlinkWatcher l k w).watcherHandles =
    update l.watcherHandles k ((l.watcherHandles k).erase w) := by
  unfold unlinkWatcher
  dsimp only
  split_ifs <;> exact ⟨rfl, rfl⟩

section

variable (H : WatchersOk l)
include H

theorem uvWatcherStop_ok (hrun : uvWatcherStop l k w = .ok l') :
    WatchersOk l' ∧ (l'.flags (.watcher k w)).active = false := by
  unfold uvWatcherStop at hrun
  split_ifs at hrun with ha
  · obtain ⟨honly, hoff⟩ := uvHandleStop_only hrun
    obtain ⟨hflags, hlists⟩ := unlinkWatcher_eq (l := l) (k := k) (w := w)
    have hf := honly.flags
    rw [hflags] at hf
    obtain ⟨n, f, rfl⟩ := honly.rest
    replace hf : ∀ v, v ≠ .watcher k w → f v = l.flags v := hf
    have hoff : (f (.watcher k w)).active = false := hoff
    refine ⟨fun k' => ?_, hoff⟩
    change ((unlinkWatcher l k w).watcherHandles k').Nodup ∧
      ∀ v, (f (.watcher k' v)).active = true ↔ v ∈ (unlinkWatcher l k w).watcherHandles k'
    rw [hlists]
    obtain ⟨hnodup, hmem⟩ := H k'
    by_cases hk : k' = k
    · subst hk
      rw [update_self]
      refine ⟨hnodup.erase w, fun v => ?_⟩
      rw [hnodup.mem_erase_iff]
      by_cases hv : v = w
      · subst hv
        simp [hoff]
      · rw [hf _ (by simpa using hv), hmem]
        simp [hv]
    · rw [update_of_ne hk]
      exact ⟨hnodup, fun v => by rw [hf _ (by simp [hk]), hmem]⟩
  · cases hrun
    exact ⟨H, by simpa [uvIsActive] using ha⟩

theorem uvWantEndgame_ok : WatchersOk (uvWantEndgame l h) := by
  obtain ⟨⟨eg, f, hrest⟩, hflags, hactive⟩ := uvWantEndgame_only (l := l) (h := h)
  rw [hrest] at hflags hactive ⊢
  refine H.of_eq rfl fun k w => ?_
  by_cases hw : Handle.watcher k w = h
  · rw [hw, hactive]
  · rw [hflags _ hw]

theorem uvHandleClosing_ok
    (hoff : (l.flags h).active = false ∨ ∀ k w, h ≠ .watcher k w)
    (hrun : uvHandleClosing l h = .ok l') : WatchersOk l' := by
  obtain ⟨honly, hoff'⟩ := uvHandleClosing_only hrun
  exact honly.watchersOk H (hoff.imp_left fun e => by rw [e, hoff'])

theorem uvClose_ok {cb : Option γ} (hrun : uvClose l h cb = .ok l') :
    WatchersOk l' := by
  unfold uvClose at hrun
  split_ifs at hrun
  have H0 : WatchersOk { l with closeCb := update l.closeCb h cb } :=
    H.of_eq rfl fun _ _ => rfl
  cases h with
  | stream s =>
    obtain ⟨l1, hclosing, hrun⟩ := bind_eq_ok.mp hrun
    cases hrun
    have H1 := uvHandleClosing_ok H0 (.inr (by simp)) hclosing
    split_ifs
    · exact uvWantEndgame_ok H1
    · exact H1
  | timer t =>
    obtain ⟨l1, hstop, hrun⟩ := bind_eq_ok.mp hrun
    obtain ⟨l2, hclosing, hrun⟩ := bind_eq_ok.mp hrun
    cases hrun
    have H1 := (uvTimerStop_only hstop).watchersOk H0
    exact uvWantEndgame_ok (uvHandleClosing_ok H1 (.inr (by simp)) hclosing)
  | watcher k w =>
    obtain ⟨l1, hstop, hrun⟩ := bind_eq_ok.mp hrun
    obtain ⟨l2, hclosing, hrun⟩ := bind_eq_ok.mp hrun
    cases hrun
    obtain ⟨H1, hoff⟩ := uvWatcherStop_ok H0 hstop
    exact uvWantEndgame_ok (uvHandleClosing_ok H1 (.inl hoff) hclosing)

omit [DecidableEq ι] in
theorem uvUpdateTime_ok {t : UInt64} (hrun : uvUpdateTime l t = .ok l') :
    WatchersOk l' := by
  unfold uvUpdateTime at hrun
  split_ifs at hrun
  cases hrun
  exact H.of_eq rfl fun _ _ => rfl

theorem decreasePendingReqCount_ok {s : ι}
    (hrun : decreasePendingReqCount l s = .ok l') : WatchersOk l' := by
  unfold decreasePendingReqCount at hrun
  split_ifs at hrun
  cases hrun
  have H1 : WatchersOk { l with
      reqsPending := update l.reqsPending s (l.reqsPending s - 1) } :=
    H.of_eq rfl fun _ _ => rfl
  dsimp only
  split_ifs
  · exact uvWantEndgame_ok H1
  · exact H1

theorem LoopOp.exec_ok {op : LoopOp ι γ} (hrun : op.exec l = .ok l') :
    WatchersOk l' := by
  cases op with
  | timerStart t cb timeout repeatMs =>
    obtain ⟨r, h⟩ := map_snd_eq_ok hrun
    exact (uvTimerStart_only h).watchersOk H
  | timerStop t => exact (uvTimerStop_only hrun).watchersOk H
  | timerAgain t =>
    obtain ⟨r, h⟩ := map_snd_eq_ok hrun
    exact (uvTimerAgain_only h).watchersOk H
  | watcherStart k w cb =>
    obtain ⟨r, h⟩ := map_snd_eq_ok hrun
    exact uvWatcherStart_ok H h
  | watcherStop k w => exact (uvWatcherStop_ok H hrun).1
  | close h cb => exact uvClose_ok H hrun
  | ref h =>
    cases hrun
    exact uvHandleRef_only.1.watchersOk H (.inl uvHandleRef_only.2)
  | unref h =>
    cases hrun
    exact uvHandleUnref_only.1.watchersOk H (.inl uvHandleUnref_only.2)
  | streamStart s => exact (uvHandleStart_only hrun).1.watchersOk H (.inr (by simp))
  | streamStop s => exact (uvHandleStop_only hrun).1.watchersOk H (.inr (by simp))
  | updateTime t => exact uvUpdateTime_ok H hrun
  | reqUnregister =>
    rw [exec, uvReqUnregister] at hrun
    split_ifs at hrun
    cases hrun
    exact H.of_eq rfl fun _ _ => rfl
  | streamReq s | insertPendingReq s | reqRegister | stop =>
    cases hrun
    exact H.of_eq rfl fun _ _ => rfl

end

theorem runOps_ok : ∀ {l : UvLoop ι γ}, WatchersOk l → runOps l ops = .ok l' → WatchersOk l' := by
  induction ops with
  | nil =>
    intro l H hrun
    cases hrun
    exact H
  | cons op ops ih =>
    intro l H hrun
    obtain ⟨l1, h1, h2⟩ := bind_eq_ok.mp hrun
    exact ih (LoopOp.exec_ok H h1) h2

theorem uvEndgame_ok (H : WatchersOk l) (hrun : uvEndgame l h ops = .ok l') : WatchersOk l' := by
  unfold uvEndgame at hrun
  split_ifs at hrun
  · unfold uvHandleClose at hrun
    have H0 : WatchersOk { l with activeHandles := l.activeHandles - 1 } :=
      H.of_eq rfl fun _ _ => rfl
    dsimp only at hrun
    split at hrun
    · cases hrun
      exact H0.setFlags rfl
    · refine runOps_ok ?_ hrun
      exact H0.setFlags rfl
  · cases hrun
    exact H

/-! ## The invariant of the loop -/

variable {s s' : RunState ι γ} {i : Input ι γ}

theorem call_ok (H : WatchersOk l) (hrun : s.call ops l = .ok s') :
    WatchersOk s'.loop ∧ s'.phase = s.phase := by
  obtain ⟨l1, h1, h2⟩ := bind_eq_ok.mp hrun
  cases h2
  exact ⟨runOps_ok H h1, rfl⟩

theorem timersStep_ok {next : RunState ι γ} (H : WatchersOk s.loop)
    (hnext : WatchersOk next.loop) (hrun : s.timersStep ops next = .ok s') :
    WatchersOk s'.loop ∧ (s'.phase = s.phase ∨ s' = next) := by
  unfold RunState.timersStep at hrun
  split at hrun
  · cases hrun
    exact ⟨hnext, .inr rfl⟩
  · split_ifs at hrun
    · obtain ⟨l, hfire, hcall⟩ := bind_eq_ok.mp hrun
      obtain ⟨l1, hstop, hfire⟩ := bind_eq_ok.mp hfire
      obtain ⟨⟨r, l2⟩, hagain, hfire⟩ := bind_eq_ok.mp hfire
      dsimp only at hfire
      split at hfire
      · cases hfire
      · cases hfire
        have H2 := (uvTimerAgain_only hagain).watchersOk ((uvTimerStop_only hstop).watchersOk H)
        exact (call_ok H2 hcall).imp_right .inl
    · cases hrun
      exact ⟨hnext, .inr rfl⟩

structure RunOk (s : RunState ι γ) : Prop where
  watchers : WatchersOk s.loop
  poll : s.phase = .poll → s.timeout =
    if (s.mode = .once ∧ s.ranPending = false) ∨ s.mode = .default
      then uvBackendTimeout s.loop else 0

omit [DecidableEq ι] in
theorem RunOk.of_phase (H : WatchersOk s.loop) (hphase : s.phase ≠ .poll) : RunOk s :=
  ⟨H, fun hp => absurd hp hphase⟩

omit [DecidableEq ι] in
theorem startReqs_ok (H : WatchersOk s.loop) : RunOk s.startReqs := by
  unfold RunState.startReqs
  split_ifs
  · exact .of_phase (H.of_eq rfl fun _ _ => rfl) (by simp [RunState.startWatchers])
  · exact .of_phase (H.of_eq rfl fun _ _ => rfl) (by simp)

theorem RunOk.step (H : RunOk s) (hrun : runStep s i = .ok s') : RunOk s' := by
  have hcall : ∀ {ops : List (LoopOp ι γ)} {l : UvLoop ι γ}, s.phase ≠ .poll → WatchersOk l →
      s.call ops l = .ok s' → RunOk s' := fun hp hl hr =>
    .of_phase (call_ok hl hr).1 (by rwa [(call_ok hl hr).2])
  unfold runStep at hrun
  split at hrun
  case h_1 hp =>
    split_ifs at hrun
    · exact hcall (by simp [hp]) H.watchers hrun
    · cases hrun
      exact .of_phase H.watchers (by simp)
    · obtain ⟨l1, h1, hrun⟩ := bind_eq_ok.mp hrun
      cases hrun
      exact .of_phase (uvUpdateTime_ok H.watchers h1) (by simp)
  case h_2 hp =>
    split_ifs at hrun
    · obtain ⟨l1, h1, hrun⟩ := bind_eq_ok.mp hrun
      cases hrun
      exact .of_phase (uvUpdateTime_ok H.watchers h1) (by simp)
    · cases hrun
      exact .of_phase (H.watchers.of_eq rfl fun _ _ => rfl) (by simp)
  case h_3 hp =>
    have hnext := startReqs_ok H.watchers
    obtain ⟨hw, hphase | rfl⟩ := timersStep_ok H.watchers hnext.watchers hrun
    · exact .of_phase hw (by simp [hphase, hp])
    · exact hnext
  case h_4 hp =>
    split at hrun
    · cases hrun
      exact .of_phase (H.watchers.of_eq rfl fun _ _ => rfl) (by simp [RunState.startWatchers])
    · obtain ⟨l1, h1, hrun⟩ := bind_eq_ok.mp hrun
      obtain ⟨l2, h2, hrun⟩ := bind_eq_ok.mp hrun
      cases hrun
      exact .of_phase (decreasePendingReqCount_ok (runOps_ok H.watchers h1) h2) (by simp [hp])
  case h_5 k hp =>
    split at hrun
    · cases hrun
      cases k with
      | idle =>
        exact .of_phase (H.watchers.of_eq rfl fun _ _ => rfl)
          (by simp [RunState.afterWatchers, RunState.startWatchers])
      | prepare => exact ⟨H.watchers, fun _ => rfl⟩
      | check => exact .of_phase H.watchers (by simp [RunState.afterWatchers])
    · refine hcall (by simp [hp]) ?_ hrun
      exact H.watchers.of_eq rfl fun _ _ => rfl
  case h_6 hp =>
    obtain ⟨l1, h1, hrun⟩ := bind_eq_ok.mp hrun
    cases hrun
    exact .of_phase ((uvUpdateTime_ok H.watchers h1).of_eq rfl fun _ _ => rfl)
      (by simp [RunState.startWatchers])
  case h_7 hp =>
    split at hrun
    · cases hrun
      exact .of_phase H.watchers (by dsimp only; split_ifs <;> simp)
    · obtain ⟨l1, h1, hrun⟩ := bind_eq_ok.mp hrun
      cases hrun
      refine .of_phase (uvEndgame_ok ?_ h1) (by simp [hp])
      refine WatchersOk.setFlags ?_ rfl
      exact H.watchers.of_eq rfl fun _ _ => rfl
  case h_8 hp =>
    have hnext : WatchersOk { s with phase := .tail }.loop := H.watchers
    obtain ⟨hw, hphase | rfl⟩ := timersStep_ok H.watchers hnext hrun
    · exact .of_phase hw (by simp [hphase, hp])
    · exact .of_phase hw (by simp)
  case h_9 hp =>
    split_ifs at hrun <;> cases hrun
    · exact .of_phase H.watchers (by simp)
    · exact .of_phase (H.watchers.of_eq rfl fun _ _ => rfl) (by simp)

structure RunInit (s : RunState ι γ) : Prop where
  phase : s.phase = .user
  stopFlag : s.loop.stopFlag = false
  counts : s.loop.activeHandles = 0 ∧ s.loop.activeReqs = 0
  endgameHandles : s.loop.endgameHandles = []
  watchers : ∀ k, s.loop.watcherHandles k = [] ∧ s.loop.nextWatcher k = none
  pending : s.loop.pendingReqs = []
  timers : s.loop.timers = [] ∧ s.loop.timerCounter = 0
  flags : ∀ h, s.loop.flags h = ⟨false, true, false, false, false⟩
  timer : ∀ t, (s.loop.timer t).timerCb = none ∧ (s.loop.timer t).repeatMs = 0
  reqsPending : ∀ t, s.loop.reqsPending t = 0

def RunReachable : RunState ι γ → Prop :=
  Reachable RunInit fun s i s' => runStep s i = .ok s'

theorem RunReachable.runOk (h : RunReachable s) : RunOk s := by
  refine Reachable.invariant h (fun s hs => ?_) (fun s i s' _ H hrun => H.step hrun)
  refine .of_phase (fun k => ?_) (by simp [hs.phase])
  rw [(hs.watchers k).1]
  exact ⟨.nil, fun w => by simp [hs.flags]⟩

end LibuvWorks.Win
