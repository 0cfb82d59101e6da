import LibuvWorks.Unix.Run

/-!
# The poll timeout in every reachable state

The invariant of the watcher queues holds at every step of the loop: a watcher is
active exactly when it is linked, in the queue of its kind or in the local queue of
the phase that runs them. So at the poll the idle queue is empty only when no idle
handle is active.
-/
namespace LibuvWorks.Unix

open Transition List Function

variable {ι γ : Type*} [DecidableEq ι]

/-! ## The watcher queues -/

def linked (l : UvLoop ι γ) (k : WatcherKind) : List ι := l.watcherHandles k ++ l.watcherRun k

def WatchersOk (l : UvLoop ι γ) : Prop :=
  ∀ k, (linked l k).Nodup ∧ ∀ w, (l.flags (.watcher k w)).active = true ↔ w ∈ linked l k

/-- A change of the loop that keeps the invariant and fills no local queue. -/
structure KeepsWatchers (l l' : UvLoop ι γ) : Prop where
  ok : WatchersOk l → WatchersOk l'
  run : WatchersOk l → ∀ k, l.watcherRun k = [] → l'.watcherRun k = []

variable {l l' l'' : UvLoop ι γ} {k : WatcherKind} {w : ι} {h : Handle ι} {ops : List (LoopOp ι γ)}

section

omit [DecidableEq ι]

theorem KeepsWatchers.refl : KeepsWatchers l l := ⟨id, fun _ _ => id⟩

theorem KeepsWatchers.trans (h : KeepsWatchers l l') (h' : KeepsWatchers l' l'') :
    KeepsWatchers l l'' :=
  ⟨h'.ok ∘ h.ok, fun H k hk => h'.run (h.ok H) k (h.run H k hk)⟩

theorem KeepsWatchers.of_eq (hq : l'.watcherHandles = l.watcherHandles)
    (hr : l'.watcherRun = l.watcherRun)
    (ha : ∀ k w, (l'.flags (.watcher k w)).active = (l.flags (.watcher k w)).active) :
    KeepsWatchers l l' := by
  refine ⟨fun H k => ?_, fun _ k hk => by rwa [hr]⟩
  have hlinked : linked l' k = linked l k := by rw [linked, linked, hq, hr]
  rw [hlinked]
  exact ⟨(H k).1, fun w => by rw [ha, (H k).2]⟩

theorem OnlyFlags.keepsWatchers (ho : OnlyFlags h l l')
    (ha : (l'.flags h).active = (l.flags h).active ∨ ∀ k w, h ≠ .watcher k w) :
    KeepsWatchers l l' := by
  have hflags := ho.flags
  obtain ⟨n, f, rfl⟩ := ho.rest
  refine .of_eq rfl rfl fun k w => ?_
  by_cases hw : Handle.watcher k w = h
  · rw [hw]
    rcases ha with ha | ha
    · exact ha
    · exact absurd hw.symm (ha k w)
  · rw [hflags _ hw]

theorem TimerOnly.keepsWatchers {t : ι} (ho : TimerOnly t l l') : KeepsWatchers l l' := by
  have hflags := ho.flags
  obtain ⟨_, _, _, _, _, rfl⟩ := ho.rest
  exact .of_eq rfl rfl fun k w => by rw [hflags _ (by simp)]

theorem setWatchers_linked (q : List ι) (k' : WatcherKind) :
    linked (l.setWatchers k q) k' = if k' = k then q ++ l.watcherRun k else linked l k' := by
  unfold linked UvLoop.setWatchers
  by_cases hk : k' = k
  · subst hk
    simp
  · simp [hk]

end

theorem uvWatcherStart_keeps (cb : Option γ) : KeepsWatchers l (uvWatcherStart l k w cb).2 := by
  unfold uvWatcherStart
  split_ifs with ha hcb
  · exact .refl
  · exact .refl
  dsimp only
  generalize hg : ({ l.setWatchers k (w :: l.watcherHandles k) with watcherCb := _ } :
    UvLoop ι γ) = g
  have hlinked : ∀ k', linked g k' = if k' = k then w :: linked l k else linked l k' := by
    intro k'
    rw [← hg]
    change linked (l.setWatchers k (w :: l.watcherHandles k)) k' = _
    rw [setWatchers_linked]
    rfl
  have hflags : g.flags = l.flags := by rw [← hg]; rfl
  have hrun : g.watcherRun = l.watcherRun := by rw [← hg]; rfl
  have honly := uvHandleStart_only (l := g) (h := .watcher k w)
  have hactive := uvHandleStart_active (l := g) (h := .watcher k w)
  obtain ⟨n, f, he⟩ := honly.rest
  have hf : ∀ v, v ≠ .watcher k w → f v = l.flags v := fun v hv => by
    rw [← hflags, ← honly.flags v hv, he]
  rw [he] at hactive ⊢
  have hoff : (l.flags (.watcher k w)).active = false := by simpa [uvIsActive] using ha
  refine ⟨fun H k' => ?_, fun _ k' hk' => by simpa [hrun] using hk'⟩
  change (linked g k').Nodup ∧ ∀ v, (f (.watcher k' v)).active = true ↔ v ∈ linked g k'
  rw [hlinked]
  obtain ⟨hnodup, hmem⟩ := H k'
  by_cases hk : k' = k
  · subst hk
    rw [if_pos rfl]
    refine ⟨nodup_cons.mpr ⟨fun hw => by simp [(hmem w).mpr hw] at hoff, hnodup⟩, fun v => ?_⟩
    by_cases hv : v = w
    · subst hv
      simp [show (f (.watcher k' v)).active = true from hactive]
    · rw [hf _ (by simpa using hv), hmem]
      simp [hv]
  · rw [if_neg hk]
    exact ⟨hnodup, fun v => by rw [hf _ (by simp [hk]), hmem]⟩

theorem uvWatcherStop_keeps : KeepsWatchers l (uvWatcherStop l k w) := by
  unfold uvWatcherStop
  split_ifs with ha
  · exact .refl
  have honly := uvHandleStop_only (l := l.unlinkWatcher k w) (h := .watcher k w)
  have hactive := uvHandleStop_active (l := l.unlinkWatcher k w) (h := .watcher k w)
  obtain ⟨n, f, he⟩ := honly.rest
  have hf : ∀ v, v ≠ .watcher k w → f v = l.flags v := fun v hv => by
    rw [← show (l.unlinkWatcher k w).flags = l.flags from rfl, ← honly.flags v hv, he]
  rw [he] at hactive ⊢
  have hlinked : ∀ k', WatchersOk l → linked (l.unlinkWatcher k w) k' =
      if k' = k then (linked l k).erase w else linked l k' := by
    intro k' H
    unfold UvLoop.unlinkWatcher UvLoop.setWatcherRun UvLoop.setWatchers linked
    by_cases hk : k' = k
    · subst hk
      simp only [update_self, if_true]
      have hdisj := nodup_append.mp (H k').1
      by_cases hw : w ∈ l.watcherHandles k'
      · rw [erase_append_left _ hw, erase_of_not_mem (fun hr => hdisj.2.2 w hw w hr rfl)]
      · rw [erase_append_right _ hw, erase_of_not_mem hw]
    · simp [hk]
  refine ⟨fun H k' => ?_, fun _ k' hk' => ?_⟩
  · change (linked (l.unlinkWatcher k w) k').Nodup ∧
      ∀ v, (f (.watcher k' v)).active = true ↔ v ∈ linked (l.unlinkWatcher k w) k'
    rw [hlinked k' H]
    obtain ⟨hnodup, hmem⟩ := H k'
    by_cases hk : k' = k
    · subst hk
      rw [if_pos rfl]
      refine ⟨hnodup.erase w, fun v => ?_⟩
      rw [hnodup.mem_erase_iff]
      by_cases hv : v = w
      · subst hv
        simp [show (f (.watcher k' v)).active = false from hactive]
      · rw [hf _ (by simpa using hv), hmem]
        simp [hv]
    · rw [if_neg hk]
      exact ⟨hnodup, fun v => by rw [hf _ (by simp [hk]), hmem]⟩
  · change Function.update l.watcherRun k ((l.watcherRun k).erase w) k' = []
    by_cases hk : k' = k
    · subst hk
      simp [hk']
    · simp [hk, hk']

theorem uvStreamClose_keeps {s : ι} : KeepsWatchers l (uvStreamClose l s) := by
  refine KeepsWatchers.trans ?_ (uvHandleStop_only.keepsWatchers (.inr (by simp)))
  exact .of_eq rfl rfl fun _ _ => rfl

theorem uvClose_keeps {cb : Option γ} (hrun : uvClose l h cb = .ok l') : KeepsWatchers l l' := by
  unfold uvClose at hrun
  split_ifs at hrun
  obtain ⟨l1, htype, hpend⟩ := bind_eq_ok.mp hrun
  have hmark : KeepsWatchers l (l.markClosing h cb) := by
    refine .of_eq rfl rfl fun k w => ?_
    by_cases hw : Handle.watcher k w = h
    · subst hw
      simp [UvLoop.markClosing]
    · simp [UvLoop.markClosing, hw]
  have hstop : KeepsWatchers (l.markClosing h cb) l1 := by
    cases h with
    | timer t => exact (uvTimerStop_only htype).keepsWatchers
    | watcher k w =>
      cases htype
      exact uvWatcherStop_keeps
    | stream s =>
      cases htype
      exact uvStreamClose_keeps
  have hpending : KeepsWatchers l1 l' := by
    unfold uvMakeClosePending at hpend
    split_ifs at hpend
    cases hpend
    exact .of_eq rfl rfl fun _ _ => rfl
  exact hmark.trans (hstop.trans hpending)

theorem TimerOp.keepsWatchers {op : TimerOp ι γ} (hrun : op.exec l = .ok l') :
    KeepsWatchers l l' := by
  have hmap : ∀ {x : Except Fault (ℤ × UvLoop ι γ)}, Except.map Prod.snd x = .ok l' →
      ∃ r, x = .ok (r, l') := by
    intro x hx
    cases x with
    | error e => cases hx
    | ok p =>
      cases hx
      exact ⟨p.1, rfl⟩
  cases op with
  | start t cb timeout repeatMs =>
    obtain ⟨r, h⟩ := hmap hrun
    exact (uvTimerStart_only h).keepsWatchers
  | stop t => exact (uvTimerStop_only hrun).keepsWatchers
  | again t =>
    obtain ⟨r, h⟩ := hmap hrun
    exact (uvTimerAgain_only h).keepsWatchers
  | close t cb => exact uvClose_keeps hrun

theorem LoopOp.keepsWatchers {op : LoopOp ι γ} (hrun : op.exec l = .ok l') :
    KeepsWatchers l l' := by
  cases op with
  | timer op => exact TimerOp.keepsWatchers hrun
  | watcherStart k w cb =>
    cases hrun
    exact uvWatcherStart_keeps cb
  | watcherStop k w =>
    cases hrun
    exact uvWatcherStop_keeps
  | close h cb => exact uvClose_keeps hrun
  | ref h =>
    cases hrun
    exact uvHandleRef_only.keepsWatchers (.inl uvHandleRef_active)
  | unref h =>
    cases hrun
    exact uvHandleUnref_only.keepsWatchers (.inl uvHandleUnref_active)
  | streamStart s =>
    cases hrun
    exact uvHandleStart_only.keepsWatchers (.inr (by simp))
  | streamStop s =>
    cases hrun
    exact uvHandleStop_only.keepsWatchers (.inr (by simp))
  | ioFeed s =>
    cases hrun
    unfold uvIoFeed
    split_ifs
    · exact .refl
    · exact .of_eq rfl rfl fun _ _ => rfl
  | reqUnregister =>
    rw [exec, uvReqUnregister] at hrun
    split_ifs at hrun
    cases hrun
    exact .of_eq rfl rfl fun _ _ => rfl
  | reqRegister | updateTime t | stop =>
    cases hrun
    exact .of_eq rfl rfl fun _ _ => rfl

theorem runOps_keeps : ∀ {l : UvLoop ι γ}, runOps l ops = .ok l' → KeepsWatchers l l' := by
  induction ops with
  | nil =>
    intro l hrun
    cases hrun
    exact .refl
  | cons op ops ih =>
    intro l hrun
    obtain ⟨l1, h1, h2⟩ := bind_eq_ok.mp hrun
    exact (LoopOp.keepsWatchers h1).trans (ih h2)

theorem uvFinishClose_keeps {destroyOps : List (LoopOp ι γ)}
    (hrun : uvFinishClose l h destroyOps ops = .ok l') : KeepsWatchers l l' := by
  unfold uvFinishClose at hrun
  split_ifs at hrun
  obtain ⟨l1, hdestroy, hrun⟩ := bind_eq_ok.mp hrun
  have hmark : KeepsWatchers l (l.setFlags h { l.flags h with closed := true }) := by
    refine .of_eq rfl rfl fun k w => ?_
    by_cases hw : Handle.watcher k w = h
    · subst hw
      simp
    · simp [hw]
  have hdestroyed : KeepsWatchers (l.setFlags h { l.flags h with closed := true }) l1 := by
    cases h with
    | stream s => exact runOps_keeps hdestroy
    | timer t | watcher k w =>
      cases hdestroy
      exact .refl
  have hunref : KeepsWatchers l1 (uvHandleUnref l1 h) :=
    uvHandleUnref_only.keepsWatchers (.inl uvHandleUnref_active)
  refine (hmark.trans hdestroyed).trans (hunref.trans ?_)
  dsimp only at hrun
  split at hrun
  · cases hrun
    exact .refl
  · exact runOps_keeps hrun

/-! ## The invariant of the loop -/

/-- Only the phase that runs the watchers of a kind has them in its local queue. -/
structure RunOk (s : RunState ι γ) : Prop where
  watchers : WatchersOk s.loop
  run : ∀ k, s.phase ≠ .watchers k → s.loop.watcherRun k = []

variable {s s' : RunState ι γ} {i : Input ι γ}

section

omit [DecidableEq ι]

theorem RunOk.of_keeps (H : RunOk s) {l : UvLoop ι γ} (hk : KeepsWatchers s.loop l)
    (hl : s'.loop = l) (hphase : ∀ k, s'.phase ≠ .watchers k → s.phase ≠ .watchers k) : RunOk s' :=
  ⟨hl ▸ hk.ok H.watchers, fun k hp => hl ▸ hk.run H.watchers k (H.run k (hphase k hp))⟩

theorem RunOk.startWatchers (hw : WatchersOk s.loop) (hr : ∀ k, s.loop.watcherRun k = [])
    (k : WatcherKind) : RunOk (s.startWatchers k) := by
  constructor
  · intro k'
    have hlinked : linked (s.startWatchers k).loop k' = linked s.loop k' := by
      unfold linked RunState.startWatchers UvLoop.setWatchers UvLoop.setWatcherRun
      by_cases hk : k' = k
      · subst hk
        simp [hr]
      · simp [hk]
    rw [hlinked]
    exact hw k'
  · intro k' hk'
    have hne : k' ≠ k := fun e => hk' (e ▸ rfl)
    change Function.update s.loop.watcherRun k _ k' = []
    rw [update_of_ne hne, hr]

theorem WatchersOk.rotate (H : WatchersOk l) {rest : List ι} (hrun : l.watcherRun k = w :: rest) :
    WatchersOk ((l.setWatcherRun k rest).setWatchers k (l.watcherHandles k ++ [w])) := by
  intro k'
  have hlinked : linked ((l.setWatcherRun k rest).setWatchers k (l.watcherHandles k ++ [w])) k' =
      linked l k' := by
    unfold linked UvLoop.setWatchers UvLoop.setWatcherRun
    by_cases hk : k' = k
    · subst hk
      simp [hrun]
    · simp [hk]
  rw [hlinked]
  exact H k'

end

theorem call_ok {l : UvLoop ι γ} (hrun : s.call ops l = .ok s') :
    KeepsWatchers l s'.loop ∧ s'.phase = s.phase := by
  obtain ⟨l1, h1, h2⟩ := bind_eq_ok.mp hrun
  cases h2
  exact ⟨runOps_keeps h1, rfl⟩

theorem RunOk.call (H : RunOk s) {l : UvLoop ι γ}
    (hk : KeepsWatchers s.loop l) (hrun : s.call ops l = .ok s') : RunOk s' := by
  obtain ⟨hk', hphase⟩ := call_ok hrun
  exact H.of_keeps (hk.trans hk') rfl fun k hp => hphase ▸ hp

theorem timerFire_keeps {t : ι} {f : γ} (hrun : timerFire l t = .ok (f, l')) :
    KeepsWatchers l l' := by
  obtain ⟨l1, hstop, hrun⟩ := bind_eq_ok.mp hrun
  obtain ⟨⟨r, l2⟩, hagain, hrun⟩ := bind_eq_ok.mp hrun
  have h12 := (uvTimerStop_only hstop).keepsWatchers.trans (uvTimerAgain_only hagain).keepsWatchers
  dsimp only at hrun
  split at hrun
  · cases hrun
  · cases hrun
    exact h12

theorem RunOk.timersStep (H : RunOk s) {next : RunState ι γ}
    (hnext : RunOk next) (hrun : s.timersStep ops next = .ok s') : RunOk s' := by
  unfold RunState.timersStep at hrun
  split at hrun
  · cases hrun
    exact hnext
  · split_ifs at hrun
    · cases hrun
      exact hnext
    · obtain ⟨⟨f, l⟩, hfire, hcall⟩ := bind_eq_ok.mp hrun
      exact H.call (timerFire_keeps hfire) hcall

section

omit [DecidableEq ι]

theorem RunOk.run_nil (H : RunOk s) (hphase : ∀ k, s.phase ≠ .watchers k) (k : WatcherKind) :
    s.loop.watcherRun k = [] := H.run k (hphase k)

theorem RunOk.startPending (H : RunOk s) (hphase : ∀ k, s.phase ≠ .watchers k) :
    RunOk s.startPending := by
  unfold RunState.startPending
  split_ifs
  · exact .startWatchers (s := { s with ranPending := false }) H.watchers (H.run_nil hphase) _
  · exact H.of_keeps (l := { s.loop with pendingRun := s.loop.pendingQueue, pendingQueue := [] })
      (.of_eq rfl rfl fun _ _ => rfl) rfl fun k _ => hphase k

theorem RunOk.afterWatchers (H : RunOk s) {k : WatcherKind}
    (hphase : s.phase = .watchers k) (hrun : s.loop.watcherRun k = []) :
    RunOk (s.afterWatchers k) := by
  have hall : ∀ k', s.loop.watcherRun k' = [] := fun k' => by
    by_cases hk : k' = k
    · rw [hk, hrun]
    · exact H.run k' (by simpa [hphase] using Ne.symm hk)
  cases k with
  | idle => exact .startWatchers H.watchers hall _
  | prepare => exact ⟨H.watchers, fun k' _ => hall k'⟩
  | check => exact ⟨fun k' => H.watchers k', fun k' _ => hall k'⟩

end

theorem RunOk.step (H : RunOk s) (hrun : runStep s i = .ok s') : RunOk s' := by
  have hsame : ∀ {p : Phase} {l : UvLoop ι γ}, s.phase = p → (∀ k, p ≠ .watchers k) →
      KeepsWatchers s.loop l → s'.loop = l → RunOk s' :=
    fun hp hno hk hl => H.of_keeps hk hl fun k _ => hp ▸ hno k
  have htime : KeepsWatchers s.loop (uvUpdateTime s.loop i.clock) :=
    .of_eq rfl rfl fun _ _ => rfl
  have hreset : KeepsWatchers s.loop { s.loop with stopFlag := false } :=
    .of_eq rfl rfl fun _ _ => rfl
  unfold runStep at hrun
  split at hrun
  case h_1 hp =>
    split_ifs at hrun
    · exact H.call .refl hrun
    · cases hrun
      refine hsame hp (by simp) ?_ rfl
      split_ifs
      · exact .refl
      · exact htime
  case h_2 hp =>
    split_ifs at hrun <;> cases hrun
    · exact hsame hp (by simp) htime rfl
    · exact hsame hp (by simp) hreset rfl
  case h_3 hp => exact H.timersStep (H.startPending (by simp [hp])) hrun
  case h_4 hp =>
    split at hrun
    · cases hrun
      exact .startWatchers H.watchers (H.run_nil (by simp [hp])) _
    · refine H.call ?_ hrun
      exact .of_eq rfl rfl fun _ _ => rfl
  case h_5 k hp =>
    split at hrun
    next hnil =>
      cases hrun
      exact H.afterWatchers hp hnil
    next w rest hcons =>
      obtain ⟨hk, hphase⟩ := call_ok hrun
      have hrot := H.watchers.rotate hcons
      refine ⟨hk.ok hrot, fun k' hk' => hk.run hrot k' ?_⟩
      rw [hphase, hp] at hk'
      have hne : k' ≠ k := fun e => hk' (e ▸ rfl)
      change Function.update s.loop.watcherRun k rest k' = []
      rw [update_of_ne hne]
      exact H.run k' (by rwa [hp])
  case h_6 hp =>
    cases hrun
    exact hsame hp (by simp) htime rfl
  case h_7 hp =>
    split_ifs at hrun
    · exact H.call .refl hrun
    · cases hrun
      exact .startWatchers H.watchers (H.run_nil (by simp [hp])) _
  case h_8 hp =>
    split at hrun
    · split_ifs at hrun <;> cases hrun
      · exact hsame hp (by simp) htime rfl
      · exact hsame hp (by simp) .refl rfl
    · obtain ⟨l1, h1, h2⟩ := bind_eq_ok.mp hrun
      cases h2
      exact hsame hp (by simp) (uvFinishClose_keeps h1) rfl
  case h_9 hp =>
    refine H.timersStep ?_ hrun
    exact H.of_keeps .refl rfl fun k _ => by simp [hp]
  case h_10 hp =>
    split_ifs at hrun <;> cases hrun
    · exact hsame hp (by simp) .refl rfl
    · exact hsame hp (by simp) hreset rfl

/-! ## The timeout handed to the poll -/

theorem timersStep_phase {next : RunState ι γ}
    (hrun : s.timersStep ops next = .ok s') : s'.phase = s.phase ∨ s' = next := by
  unfold RunState.timersStep at hrun
  split at hrun
  · cases hrun
    exact .inr rfl
  · split_ifs at hrun
    · cases hrun
      exact .inr rfl
    · obtain ⟨⟨f, l⟩, _, hcall⟩ := bind_eq_ok.mp hrun
      exact .inl (call_ok hcall).2

theorem runStep_poll (hrun : runStep s i = .ok s') (hpoll : s'.phase = .poll) :
    s' = s.computeTimeout := by
  have hcall : ∀ {ops : List (LoopOp ι γ)} {l : UvLoop ι γ} {p : Phase}, s.phase = p → p ≠ .poll →
      s.call ops l = .ok s' → s' = s.computeTimeout := fun hp hne hr =>
    absurd ((call_ok hr).2.symm.trans hpoll) (by rwa [hp])
  unfold runStep at hrun
  split at hrun
  case h_1 hp =>
    split_ifs at hrun
    · exact hcall hp (by simp) hrun
    · cases hrun
      simp at hpoll
  case h_2 hp =>
    split_ifs at hrun
    all_goals
      cases hrun
      simp at hpoll
  case h_3 hp =>
    rcases timersStep_phase hrun with hphase | rfl
    · simp [hphase, hp] at hpoll
    · unfold RunState.startPending at hpoll
      split_ifs at hpoll
      simp [RunState.startWatchers] at hpoll
  case h_4 hp =>
    split at hrun
    · cases hrun
      simp [RunState.startWatchers] at hpoll
    · exact hcall hp (by simp) hrun
  case h_5 k hp =>
    split at hrun
    · cases hrun
      cases k with
      | prepare => rfl
      | idle => simp [RunState.afterWatchers, RunState.startWatchers] at hpoll
      | check => simp [RunState.afterWatchers] at hpoll
    · exact hcall hp (by simp) hrun
  case h_6 hp =>
    cases hrun
    simp at hpoll
  case h_7 hp =>
    split_ifs at hrun
    · exact hcall hp (by simp) hrun
    · cases hrun
      simp [RunState.startWatchers] at hpoll
  case h_8 hp =>
    split at hrun
    · split_ifs at hrun
      all_goals
        cases hrun
        simp at hpoll
    · obtain ⟨l1, h1, h2⟩ := bind_eq_ok.mp hrun
      cases h2
      simp [hp] at hpoll
  case h_9 hp =>
    rcases timersStep_phase hrun with hphase | rfl
    · simp [hphase, hp] at hpoll
    · simp at hpoll
  case h_10 hp =>
    split_ifs at hrun
    all_goals
      cases hrun
      simp at hpoll

structure RunInit (s : RunState ι γ) : Prop where
  phase : s.phase = .user
  stopFlag : s.loop.stopFlag = false
  counts : s.loop.activeHandles = 0 ∧ s.loop.activeReqs = 0
  closingHandles : s.loop.closingHandles = []
  watchers : ∀ k, s.loop.watcherHandles k = [] ∧ s.loop.watcherRun k = []
  pending : s.loop.pendingQueue = [] ∧ s.loop.pendingRun = []
  timers : (∃ h, s.loop.timerHeap = heapInit h) ∧ s.loop.timerCounter = 0
  flags : ∀ h, s.loop.flags h = ⟨false, true, false, false⟩
  timer : ∀ t, (s.loop.timer t).timerCb = none ∧ (s.loop.timer t).repeatMs = 0

def RunReachable : RunState ι γ → Prop :=
  Reachable RunInit fun s i s' => runStep s i = .ok s'

theorem RunReachable.runOk (h : RunReachable s) : RunOk s := by
  refine Reachable.invariant h (fun s hs => ?_) (fun s i s' _ H hrun => H.step hrun)
  refine ⟨fun k => ?_, fun k _ => (hs.watchers k).2⟩
  have hempty : linked s.loop k = [] := by simp [linked, hs.watchers k]
  exact ⟨by simp [hempty], fun w => by simp [hempty, hs.flags]⟩

theorem RunReachable.timeout (h : RunReachable s) (hpoll : s.phase = .poll) : s.timeout =
    if (s.mode = .once ∧ s.ranPending = false) ∨ s.mode = .default
      then uvBackendTimeout s.loop else 0 := by
  refine Reachable.invariant (P := fun s => s.phase = .poll → s.timeout =
    if (s.mode = .once ∧ s.ranPending = false) ∨ s.mode = .default
      then uvBackendTimeout s.loop else 0) h (fun s hs hp => ?_) (fun s i s' _ _ hrun hp => ?_) hpoll
  · simp [hs.phase] at hp
  · rw [runStep_poll hrun hp]
    rfl

end LibuvWorks.Unix
