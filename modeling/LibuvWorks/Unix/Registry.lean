import LibuvWorks.Unix.IoSpec

/-!
# The registry of watchers and the kernel's set

The watchers of a loop have different descriptors. What the kernel watches is brought up to date
by `uv__io_poll` only, for the watchers that are in `watcher_queue`.
-/
namespace LibuvWorks.Unix

open Option
open Function (update update_self update_of_ne)
open Transition

namespace IoLoop

/-- The operations on a watcher, and the steps of `uv__io_poll`. -/
inductive Op where
  | start (w : ℕ) (events : Events) : Op
  | stop (w : ℕ) (events : Events) : Op
  | feed (w : ℕ) : Op
  | close (w : ℕ) : Op
  | registration : Op
  | wait (events : List EpollEvent) : Op
  | turn : Op
  | signals : Op
  | finish : Op

/-- `none` is an abort, or a step that is not due: `uv__io_poll` registers and waits when it does
not dispatch. -/
def step (s : IoLoop) : Op → Option IoLoop
  | .start w events => s.uvIoStart w events
  | .stop w events => s.uvIoStop w events
  | .feed w => some (s.uvIoFeed w)
  | .close w => s.uvIoClose w
  | .registration => if s.batch.isNone then s.registration else none
  | .wait events => if s.batch.isNone then s.wait events else none
  | .turn => s.turn.map Prod.fst
  | .signals => s.signals.map Prod.fst
  | .finish => s.finish

def Distinct (s : IoLoop) : Prop := ∀ w v, 0 ≤ (s.io w).fd → (s.io w).fd = (s.io v).fd → w = v

/-- A loop before the first `uv__io_start`, with a table of any size. -/
structure Init (s : IoLoop) : Prop where
  distinct : Distinct s
  io : ∀ w, (s.io w).events = 0 ∧ (s.io w).pevents = 0
  watcherQueue : s.watcherQueue = []
  allocated : s.allocated = true
  watchers : ∀ i < s.nwatchers + 2, s.watchers i = .null
  nfds : s.nfds = 0
  interest : ∀ fd, s.interest fd = none
  batch : s.batch = none

def Step (s : IoLoop) (op : Op) (t : IoLoop) : Prop := step s op = some t

variable {s t : IoLoop} {w v : ℕ} {op : Op}

/-- What a watcher was last registered for is in the kernel's set. -/
structure Registered (s : IoLoop) : Prop extends IoOk s where
  distinct : Distinct s
  kernel : ∀ w, (s.io w).events ≠ 0 → s.interest (s.io w).fd.toNat = some (s.io w).events

theorem Registered.of_init (h : Init s) : Registered s :=
  ⟨.of_idle h.io h.watcherQueue h.allocated h.watchers h.nfds h.batch, h.distinct,
    fun w hw => absurd (h.io w).1 hw⟩

theorem Registered.setIo {x : Io} (h : Registered s) (ht : IoOk t) (hio : t.io = update s.io w x)
    (hfd : x.fd = (s.io w).fd) (hevents : x.events = 0 ∨ x.events = (s.io w).events)
    (hkernel : ∀ v, (t.io v).events ≠ 0 →
      t.interest (s.io v).fd.toNat = s.interest (s.io v).fd.toNat) : Registered t := by
  have hfd' : ∀ v, (t.io v).fd = (s.io v).fd := by
    intro v
    by_cases hvw : v = w
    · subst hvw
      rw [hio, update_self, hfd]
    · rw [hio, update_of_ne hvw]
  refine ⟨ht, fun v u hpos heq => ?_, fun v hv => ?_⟩
  · rw [hfd' v] at hpos heq
    rw [hfd' u] at heq
    exact h.distinct v u hpos heq
  · rw [hfd', hkernel v hv]
    by_cases hvw : v = w
    · subst hvw
      rw [hio, update_self] at hv ⊢
      obtain hzero | hsame := hevents
      · exact absurd hzero hv
      · rw [hsame] at hv ⊢
        exact h.kernel v hv
    · rw [hio, update_of_ne hvw] at hv ⊢
      exact h.kernel v hv

theorem Registered.of_io (h : Registered s) (ht : IoOk t) (hio : t.io = s.io)
    (hkernel : ∀ v, (s.io v).events ≠ 0 →
      t.interest (s.io v).fd.toNat = s.interest (s.io v).fd.toNat) : Registered t := by
  refine ⟨ht, ?_, fun v hv => ?_⟩
  · rw [Distinct, hio]
    exact h.distinct
  · rw [hio] at hv ⊢
    rw [hkernel v hv]
    exact h.kernel v hv

theorem IoOk.pevents_ne (h : IoOk s) (hw : (s.io w).events ≠ 0) : (s.io w).pevents ≠ 0 :=
  fun hpev => hw (h.stopped w hpev)

theorem Registered.turn (h : Registered s) {o : Option (ℕ × Events)}
    (hturn : s.turn = some (t, o)) : Registered t := by
  obtain ⟨ht, hio⟩ := h.toIoOk.turn hturn
  apply h.of_io ht hio
  intro v hv
  obtain ⟨b, pe, -, -, hcases⟩ := turn_cases hturn
  obtain ⟨rfl, -⟩ | ⟨hpos, hlt, hslot, rfl, -⟩ | ⟨w, -, -, -, ⟨-, -, rfl⟩ | ⟨rfl, -⟩⟩ := hcases
  · rfl
  · rw [disarm_eq]
    obtain ⟨-, -, hown⟩ := h.started v (h.pevents_ne hv)
    have hne : (s.io v).fd.toNat ≠ pe.data.toNat := by
      intro heq
      rw [heq, hslot] at hown
      cases hown
    simp only [if_neg (not_lt.mpr hpos), update_of_ne hne]
  · rfl
  · rfl

theorem Registered.close (h : Registered s) (hclose : s.uvIoClose w = some t) : Registered t := by
  obtain ⟨ht, hio, -, hinterest⟩ := h.uvIoClose hclose
  apply h.setIo ht hio rfl (.inl rfl)
  intro v hv
  rw [hinterest]
  split
  · rfl
  · next hneg =>
    have hvw : v ≠ w := by
      rintro rfl
      rw [hio, update_self] at hv
      exact hv rfl
    rw [hio, update_of_ne hvw] at hv
    obtain ⟨hpos, -, -⟩ := h.started v (h.pevents_ne hv)
    refine update_of_ne (fun heq => hvw (h.distinct v w hpos ?_)) _ _
    omega

/-! ### The registration pass -/

/-- The kernel takes the events of a watcher, whether its descriptor is in the set or not. -/
theorem Registered.register_eq (h : Registered s) (hw : w ∈ s.watcherQueue) :
    s.register w = some { (s.dequeue w).setIo w
        ⟨(s.io w).fd, (s.io w).pevents, (s.io w).pevents⟩ with
      interest := update s.interest (s.io w).fd.toNat (some (s.io w).pevents) } := by
  have hpev := h.queue w hw
  obtain ⟨hpos, hlt, -⟩ := h.started w hpev
  unfold IoLoop.register
  simp only [dequeue_io, dequeue_nwatchers]
  rw [if_neg (not_or.mpr ⟨hpev, not_or.mpr ⟨not_lt.mpr hpos, not_le.mpr hlt⟩⟩)]
  by_cases hevents : (s.io w).events = 0
  · cases hkernel : s.interest (s.io w).fd.toNat with
    | none =>
      simp only [if_pos hevents, epollCtl, dequeue_interest, hkernel, map_some]
      rfl
    | some events =>
      simp only [if_pos hevents, epollCtl, dequeue_interest, hkernel, ne_eq, not_true_eq_false,
        if_false, Except.toOption, map_some]
      rfl
  · simp only [if_neg hevents, epollCtl, dequeue_interest, h.kernel w hevents, map_some]
    rfl

/-- A watcher of the queue is registered for what it asks for, and the pass goes on. -/
theorem Registered.register (h : Registered s) (hw : w ∈ s.watcherQueue) :
    ∃ t, s.register w = some t ∧ Registered t ∧ t.watcherQueue = s.watcherQueue.erase w ∧
      ∀ v, t.io v = ⟨(s.io v).fd, if v = w then (s.io v).pevents else (s.io v).events,
        (s.io v).pevents⟩ := by
  have hpev := h.queue w hw
  have hio : ∀ v, ((s.dequeue w).setIo w ⟨(s.io w).fd, (s.io w).pevents, (s.io w).pevents⟩).io v =
      ⟨(s.io v).fd, if v = w then (s.io v).pevents else (s.io v).events, (s.io v).pevents⟩ := by
    intro v
    by_cases hvw : v = w
    · simp [hvw]
    · simp [hvw]
  refine ⟨_, h.register_eq hw, ⟨?_, fun v u hpos heq => ?_, fun v hv => ?_⟩, rfl, hio⟩
  · exact h.registered hpev
  · simp only [hio] at hpos heq
    exact h.distinct v u hpos heq
  · simp only [hio] at hv ⊢
    by_cases hvw : v = w
    · simp [hvw]
    · simp only [if_neg hvw] at hv ⊢
      obtain ⟨hpos, -, -⟩ := h.started v (h.pevents_ne hv)
      obtain ⟨hpos', -, -⟩ := h.started w hpev
      rw [update_of_ne fun heq => hvw (h.distinct v w hpos (by omega))]
      exact h.kernel v hv

theorem Registered.registerAll {ws : List ℕ} (h : Registered s) (hws : s.watcherQueue = ws) :
    ∃ t, s.registerAll ws = some t ∧ Registered t ∧ t.watcherQueue = [] ∧
      ∀ v, (t.io v).fd = (s.io v).fd ∧ (t.io v).pevents = (s.io v).pevents := by
  induction ws generalizing s with
  | nil => exact ⟨s, rfl, h, hws, fun _ => ⟨rfl, rfl⟩⟩
  | cons w ws ih =>
    obtain ⟨u, hregister, hu, hqueue, hio⟩ := h.register (w := w) (by simp [hws])
    rw [hws, List.erase_cons_head] at hqueue
    obtain ⟨t, hall, ht, hempty, hsame⟩ := ih hu hqueue
    refine ⟨t, ?_, ht, hempty, fun v => ?_⟩
    · rw [IoLoop.registerAll, hregister]
      exact hall
    · simpa only [hio] using hsame v

theorem Registered.registration (h : Registered s) :
    ∃ t, s.registration = some t ∧ Registered t ∧ t.watcherQueue = [] ∧
      ∀ v, (t.io v).fd = (s.io v).fd ∧ (t.io v).pevents = (s.io v).pevents := by
  unfold IoLoop.registration
  split
  · next hnfds =>
    have hqueue : s.watcherQueue = [] := by
      apply List.eq_nil_iff_forall_not_mem.mpr
      intro w hw
      obtain ⟨-, hlt, hslot⟩ := h.started w (h.queue w hw)
      have hused : (s.io w).fd.toNat ∈ s.used := by simp [used, hlt, hslot]
      rw [h.nfds, Finset.card_eq_zero] at hnfds
      simp [hnfds] at hused
    exact ⟨s, if_pos hqueue, h, hqueue, fun _ => ⟨rfl, rfl⟩⟩
  · exact h.registerAll rfl

theorem Registered.step (h : Registered s) (hstep : Step s op t) : Registered t := by
  cases op with
  | start w events =>
    have hown : Own s w := by
      intro hlt
      obtain hnull | ⟨v, hslot, hv, -⟩ := h.table _ hlt
      · exact .inl hnull
      · obtain ⟨-, -, hpos, -⟩ := uvIoStart_cases hstep
        have hvw : w = v := h.distinct w v hpos (by omega)
        exact .inr (hvw ▸ hslot)
    obtain ⟨ht, hio, hinterest, -⟩ := h.uvIoStart hown hstep
    exact h.setIo ht hio rfl (.inr rfl) fun v _ => by rw [hinterest]
  | stop w events =>
    obtain ⟨ht, hio, hinterest, -⟩ := h.uvIoStop hstep
    refine h.setIo ht hio ?_ ?_ fun v _ => by rw [hinterest]
    · unfold dropped
      split <;> rfl
    · unfold dropped
      split
      · exact .inl rfl
      · exact .inr rfl
  | feed w =>
    cases hstep
    obtain ⟨ht, hio, hinterest, -⟩ := h.toIoOk.uvIoFeed (w := w)
    exact h.of_io ht hio fun v _ => by rw [hinterest]
  | close w => exact h.close hstep
  | registration =>
    obtain ⟨-, hregistration⟩ := by
      simpa only [Step, IoLoop.step, ite_none_right_eq_some] using hstep
    obtain ⟨t', hpass, ht, -⟩ := h.registration
    exact Option.some.inj (hregistration.symm.trans hpass) ▸ ht
  | wait events =>
    obtain ⟨-, hwait⟩ := by
      simpa only [Step, IoLoop.step, ite_none_right_eq_some] using hstep
    obtain ⟨ht, hio, hinterest, -⟩ := h.toIoOk.wait hwait
    exact h.of_io ht hio fun v _ => by rw [hinterest]
  | turn =>
    obtain ⟨⟨t', o⟩, hturn, rfl⟩ := map_eq_some_iff.mp hstep
    exact h.turn hturn
  | signals =>
    obtain ⟨⟨t', o⟩, hsignals, rfl⟩ := map_eq_some_iff.mp hstep
    obtain ⟨ht, hio, hinterest⟩ := h.toIoOk.signals hsignals
    exact h.of_io ht hio fun v _ => by rw [hinterest]
  | finish =>
    obtain ⟨ht, hio, hinterest, -⟩ := h.toIoOk.finish hstep
    exact h.of_io ht hio fun v _ => by rw [hinterest]

theorem Registered.of_reachable (h : Reachable Init Step s) : Registered s :=
  h.invariant (fun _ => .of_init) fun _ _ _ _ hs hstep => hs.step hstep

/-- In every run: the table holds the watchers that are started and `nfds` counts them, the slots
after it are those of the batch, and the queue holds every started watcher that is registered for
something else, and no stopped one. A registration pass does not abort, and after it the kernel
watches for what each started watcher asks for. -/
theorem registry_agrees (h : Reachable Init Step s) :
    (∀ w, (s.io w).pevents ≠ 0 ↔ 0 ≤ (s.io w).fd ∧ (s.io w).fd.toNat < s.nwatchers ∧
      s.watchers (s.io w).fd.toNat = .watcher w) ∧
    s.nfds = s.used.card ∧
    (s.watchers s.nwatchers, s.watchers (s.nwatchers + 1)) = Batch.fakes s.batch ∧
    (∀ w, (s.io w).pevents ≠ 0 → (s.io w).pevents ≠ (s.io w).events → w ∈ s.watcherQueue) ∧
    (∀ w ∈ s.watcherQueue, (s.io w).pevents ≠ 0) ∧
    (s.batch = none → ∃ t, Step s .registration t ∧ ∀ w, (t.io w).fd = (s.io w).fd ∧
      (t.io w).pevents = (s.io w).pevents ∧
      ((t.io w).pevents ≠ 0 → t.interest (t.io w).fd.toNat = some (t.io w).pevents)) := by
  have hs := Registered.of_reachable h
  refine ⟨fun w => ⟨hs.started w, fun ⟨_, hlt, hslot⟩ => ?_⟩, hs.nfds, hs.fakes, hs.queued,
    hs.queue, fun hbatch => ?_⟩
  · obtain hnull | ⟨v, hv, -, hpev⟩ := hs.table _ hlt
    · rw [hslot] at hnull
      cases hnull
    · rw [hslot] at hv
      exact Slot.watcher.inj hv ▸ hpev
  · obtain ⟨t, hpass, ht, hempty, hsame⟩ := hs.registration
    refine ⟨t, ?_, fun w => ⟨(hsame w).1, (hsame w).2, fun hpev => ?_⟩⟩
    · simpa [Step, IoLoop.step, hbatch] using hpass
    · have hevents : (t.io w).pevents = (t.io w).events := by
        by_contra hne
        have hmem := ht.queued w hpev hne
        rw [hempty] at hmem
        cases hmem
      rw [hevents] at hpev ⊢
      exact ht.kernel w hpev

/-! ### Concrete runs -/

/-- A loop whose watchers have the descriptors from 3 on. -/
def fresh : IoLoop where
  io w := ⟨w + 3, 0, 0⟩
  pendingQueue := ⟨id, id⟩
  watcherQueue := []
  allocated := true
  watchers _ := .null
  nwatchers := 0
  nfds := 0
  interest _ := none
  batch := none

theorem init_fresh : Init fresh where
  distinct w v _ heq := by
    have heq : (w : ℤ) + 3 = v + 3 := heq
    omega
  io _ := ⟨rfl, rfl⟩
  watcherQueue := rfl
  allocated := rfl
  watchers _ _ := rfl
  nfds := rfl
  interest _ := rfl
  batch := rfl

/-- The table grows while a batch is dispatched. -/
theorem registry_agrees_grown :
    ∃ s : IoLoop, s.nwatchers = 14 ∧ s.nfds = s.used.card ∧
      (s.watchers 14, s.watchers 15) = (.events, .count 1) := by
  have hsome : ([.start 0 pollIn, .registration, .wait [⟨pollIn, 3⟩], .turn, .start 8 pollOut].foldlM
      step fresh).isSome = true := by rfl
  have hagrees := registry_agrees (.of_foldlM (.init init_fresh) (Option.some_get hsome).symm)
  exact ⟨_, by rfl, hagrees.2.1, hagrees.2.2.1⟩

/-- A watcher is stopped after it was registered: the next pass leaves it in the kernel's set. -/
theorem stopped_still_registered :
    ∃ s t : IoLoop, Reachable Init Step s ∧ Step s .registration t ∧ (t.io 0).fd = 3 ∧
      (t.io 0).pevents = 0 ∧ t.interest 3 = some pollIn := by
  have hsome : ([.start 0 pollIn, .start 1 pollIn, .registration, .stop 0 pollIn].foldlM step
      fresh).isSome = true := by rfl
  exact ⟨_, _, .of_foldlM (.init init_fresh) (Option.some_get hsome).symm, by rfl, by rfl, by rfl,
    by rfl⟩

end IoLoop

end LibuvWorks.Unix
