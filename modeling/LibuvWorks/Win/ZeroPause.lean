import LibuvWorks.Win.ZeroRead

/-!
# A pause of the thread that reads a pipe

What a step of the thread does, and what `readfile_thread` and `readfile_mutex` keep between the
thread and the loop: the thread takes a mutex that is there, and no `ReadFile` is in progress in a
pause.
-/
namespace LibuvWorks.Win

/-- `readfile_thread` is not null. -/
def ZeroThread.registered : ZeroThread → Bool
  | .reading hThread => hThread
  | .returned hThread _ => hThread
  | .finishing hThread _ => hThread
  | _ => false

/-- A bound on the steps up to the completion, if no `ReadFile` is aborted. -/
def ZeroThread.rank : ZeroThread → ℕ
  | .idle => 0
  | .posting _ => 1
  | .unregistered _ => 2
  | .finishing _ _ => 3
  | .returned _ _ => 4
  | .reading _ => 5
  | .relocking _ => 6
  | .locking => 6
  | .begins => 7

theorem ZeroThread.mayLock_of_registered {thread : ZeroThread} (h : thread.registered = true) :
    thread.mayLock = true := by
  cases thread with
  | reading hThread | returned hThread result | finishing hThread success => exact h
  | idle | begins | locking | relocking _ | unregistered _ | posting _ => cases h

namespace ZeroRead

variable {s t : ZeroRead} {call : PauseFor}

/-- A pause can cancel the `ReadFile` of the thread, and keeps it from a first one. -/
def Pausable (s : ZeroRead) : Prop :=
  s.thread ≠ .reading false ∧ (s.thread = .begins → s.cancelable = true)

instance (s : ZeroRead) : Decidable s.Pausable := by
  unfold Pausable
  infer_instance

/-- A step of the thread posts the completion, or gets nearer to it, or a `ReadFile` was aborted. -/
theorem threadStep_cases {duplicated : Bool} {result : ReadFileResult}
    (hst : s.threadStep duplicated result = some t) :
    (∃ success, s.thread = .posting success ∧
      t = { s with thread := .idle, completions := s.completions ++ [success] }) ∨
    ∃ readfileThread thread cancelled, thread.alive = true ∧ s.thread.alive = true ∧
      (thread.rank < s.thread.rank ∨ ∃ hThread, s.thread = .returned hThread .aborted) ∧
      t = { s with readfileThread, thread, cancelled } := by
  rw [ZeroRead.threadStep] at hst
  cases hthread : s.thread <;> rw [hthread] at hst
  case idle => cases hst
  case begins =>
    change (if s.cancelable then _ else _) = some t at hst
    split_ifs at hst
    · cases hst
      exact .inr ⟨_, _, _, rfl, rfl, .inl (by simp [ZeroThread.rank]), rfl⟩
    · cases hst
      exact .inr ⟨_, _, _, rfl, rfl, .inl (by simp [ZeroThread.rank]), rfl⟩
  case reading hThread =>
    cases hst
    exact .inr ⟨_, _, _, rfl, rfl, .inl (by simp [ZeroThread.rank]), rfl⟩
  case returned hThread result =>
    change (if result = .aborted ∧ s.cancelable then if s.reading then _ else _ else _) = some t
      at hst
    split_ifs at hst with haborted
    · cases hst
      exact .inr ⟨_, _, _, rfl, rfl, .inr ⟨hThread, by rw [haborted.1]⟩, rfl⟩
    · cases hst
      exact .inr ⟨_, _, _, rfl, rfl, .inl (by simp [ZeroThread.rank]), rfl⟩
    · cases hst
      exact .inr ⟨_, _, _, rfl, rfl, .inl (by simp [ZeroThread.rank]), rfl⟩
  case finishing hThread success =>
    change (if hThread then if s.readfileThread = false then none else _ else _) = some t at hst
    split_ifs at hst
    · cases hst
      exact .inr ⟨_, _, _, rfl, rfl, .inl (by simp [ZeroThread.rank]), rfl⟩
    · cases hst
      exact .inr ⟨_, _, _, rfl, rfl, .inl (by simp [ZeroThread.rank]), rfl⟩
  case posting success =>
    cases hst
    exact .inl ⟨success, rfl, rfl⟩
  -- the three places where the thread takes the mutex
  all_goals
    change (if s.cancelable = false then none else _) = some t at hst
    split_ifs at hst
    cases hst
    exact .inr ⟨_, _, _, rfl, rfl, .inl (by simp [ZeroThread.rank]), rfl⟩

/-! ### What the thread and a pause have in common -/

structure Coordinated (s : ZeroRead) : Prop where
  registered : s.readfileThread = s.thread.registered
  pausable : s.loop ≠ .free → s.Pausable
  pausing : ∀ call, s.loop = .pausing call → s.cancelable = true
  paused : ∀ call, s.loop = .paused call → s.readfileThread = false
  destroyed : s.cancelable = false → s.thread.mayLock = false
  cancelled : s.cancelled = true → s.thread.reads = true →
    s.thread = .reading true ∧ ∃ call, s.loop = .pausing call
  aborted : ∀ hThread, s.thread = .returned hThread .aborted →
    hThread = true ∧ ∃ call, s.loop = .pausing call
  relocking : s.thread ≠ .relocking false

namespace Coordinated

theorem notReading (h : Coordinated s) (hloop : s.loop = .paused call) :
    s.thread.reads = false := by
  have hpausable := h.pausable (by simp [hloop])
  have hregistered := h.registered.symm.trans (h.paused call hloop)
  cases hthread : s.thread with
  | reading hThread =>
    rw [hthread] at hregistered
    exact absurd (hthread.trans (congrArg ZeroThread.reading hregistered)) hpausable.1
  | idle | begins | locking | returned _ _ | relocking _ | finishing _ _ | unregistered _
    | posting _ => rfl

theorem unaborted (h : Coordinated s) (hloop : ∀ call, s.loop ≠ .pausing call) :
    (s.cancelled = true → s.thread.reads = false) ∧
      ∀ hThread, s.thread ≠ .returned hThread .aborted := by
  constructor
  · intro hs
    by_contra hreads
    obtain ⟨-, call, hcall⟩ := h.cancelled hs (eq_true_of_ne_false hreads)
    exact hloop call hcall
  · intro hThread hthread
    obtain ⟨-, call, hcall⟩ := h.aborted hThread hthread
    exact hloop call hcall

theorem pauseRead (h : Coordinated s) (hloop : s.loop = .free) (hpausable : s.Pausable) :
    Coordinated (s.uvPipePauseRead call) := by
  obtain ⟨hcancelled, haborted⟩ := h.unaborted (by simp [hloop])
  rw [uvPipePauseRead]
  split_ifs with hcancelable
  · exact { h with
      pausable := fun _ => hpausable
      pausing := fun _ _ => hcancelable
      paused := nofun
      cancelled := fun hs hreads => by cases (hcancelled hs).symm.trans hreads
      aborted := fun hThread hthread => absurd hthread (haborted hThread) }
  · have hlock := h.destroyed (eq_false_of_ne_true hcancelable)
    have hregistered : s.readfileThread = false := by
      rw [h.registered, ← Bool.not_eq_true]
      intro hthread
      rw [ZeroThread.mayLock_of_registered hthread] at hlock
      cases hlock
    exact { h with
      pausable := fun _ => hpausable
      pausing := nofun
      paused := fun _ _ => hregistered
      cancelled := fun hs hreads => by cases (hcancelled hs).symm.trans hreads
      aborted := fun hThread hthread => absurd hthread (haborted hThread) }

theorem spin (h : Coordinated s) (hloop : s.loop = .pausing call) (hit : Bool) :
    Coordinated (s.spin call hit) := by
  have hpausable : s.Pausable := h.pausable (by simp [hloop])
  rw [ZeroRead.spin]
  split_ifs with hthread
  · refine { h with cancelled := fun _ hreads => ?_ }
    change s.thread.reads = true at hreads
    have hregistered := h.registered.symm.trans hthread
    change s.thread = _ ∧ _
    cases hs : s.thread with
    | reading hThread =>
      rw [hs] at hregistered
      exact ⟨congrArg ZeroThread.reading hregistered, call, hloop⟩
    | idle | begins | locking | returned _ _ | relocking _ | finishing _ _ | unregistered _
      | posting _ =>
      rw [hs] at hreads
      cases hreads
  · have hnull := eq_false_of_ne_true hthread
    have hregistered := h.registered.symm.trans hnull
    refine { h with
      pausable := fun _ => hpausable
      pausing := nofun
      paused := fun _ _ => hnull
      cancelled := fun hs hreads => ?_
      aborted := fun hThread hs => ?_ }
    · rw [(h.cancelled hs hreads).1] at hregistered
      cases hregistered
    · have htrue := (h.aborted hThread hs).1
      change s.thread = _ at hs
      rw [hs, htrue] at hregistered
      cases hregistered

theorem of_free (hloop : t.loop = .free) (hregistered : t.readfileThread = t.thread.registered)
    (hdestroyed : t.cancelable = false → t.thread.mayLock = false)
    (hcancelled : t.cancelled = true → t.thread.reads = false)
    (haborted : ∀ hThread, t.thread ≠ .returned hThread .aborted)
    (hrelocking : t.thread ≠ .relocking false) : Coordinated t where
  registered := hregistered
  pausable hne := absurd hloop hne
  pausing call hcall := by cases hloop.symm.trans hcall
  paused call hcall := by cases hloop.symm.trans hcall
  destroyed := hdestroyed
  cancelled hs hreads := by
    rw [hcancelled hs] at hreads
    cases hreads
  aborted hThread ht := absurd ht (haborted hThread)
  relocking := hrelocking

theorem unpause (h : Coordinated s) (hloop : s.loop = .paused call)
    (hcancelable : t.cancelable = s.cancelable) (hthread : t.thread = s.thread)
    (hregistered : t.readfileThread = s.readfileThread) (hfree : t.loop = .free) :
    Coordinated t := by
  apply of_free hfree
  · rw [hregistered, hthread]
    exact h.registered
  · rw [hcancelable, hthread]
    exact h.destroyed
  · rw [hthread]
    exact fun _ => h.notReading hloop
  · rw [hthread]
    exact (h.unaborted (by simp [hloop])).2
  · rw [hthread]
    exact h.relocking

theorem destroyMutex (h : Coordinated s) (hloop : s.loop = .free)
    (hlock : s.thread.mayLock = false) :
    Coordinated { s with endgameQueued := false, cancelable := false } := by
  obtain ⟨hcancelled, haborted⟩ := h.unaborted (by simp [hloop])
  exact of_free hloop h.registered (fun _ => hlock) hcancelled haborted h.relocking

theorem begins (h : Coordinated s) (hidle : s.thread = .idle) (hloop : s.loop = .free) :
    Coordinated { s with thread := .begins } := by
  have hregistered := h.registered
  rw [hidle] at hregistered
  exact of_free hloop hregistered (fun _ => rfl) (fun _ => rfl) nofun nofun

/-! ### A step of the thread -/

theorem advance (h : Coordinated s) (hcancelable : t.cancelable = s.cancelable)
    (hloop : t.loop = s.loop) (hregistered : t.readfileThread = t.thread.registered)
    (hpaused : s.readfileThread = false → t.readfileThread = false)
    (hdestroyed : t.cancelable = false → t.thread.mayLock = false)
    (hbegins : t.thread ≠ .begins) (hreads : t.thread.reads = false)
    (haborted : ∀ hThread, t.thread ≠ .returned hThread .aborted)
    (hrelocking : t.thread ≠ .relocking false) : Coordinated t where
  registered := hregistered
  pausable _ := by
    constructor
    · intro ht
      rw [ht] at hreads
      cases hreads
    · exact fun ht => absurd ht hbegins
  pausing := by
    rw [hloop, hcancelable]
    exact h.pausing
  paused call hcall := hpaused (h.paused call (hloop.symm.trans hcall))
  destroyed := hdestroyed
  cancelled _ ht := by
    rw [hreads] at ht
    cases ht
  aborted hThread ht := absurd ht (haborted hThread)
  relocking := hrelocking

theorem locks (h : Coordinated s) (hlocks : s.thread.locks = true) (hheld : s.held = false) :
    s.cancelable = true ∧ s.loop = .free := by
  have hlock : s.thread.mayLock = true := by
    cases hthread : s.thread with
    | locking | relocking _ | unregistered _ => rfl
    | idle | begins | reading _ | returned _ _ | finishing _ _ | posting _ =>
      rw [hthread] at hlocks
      cases hlocks
  have hcancelable : s.cancelable = true := by
    by_contra hs
    rw [h.destroyed (eq_false_of_ne_true hs)] at hlock
    cases hlock
  constructor
  · exact hcancelable
  · simpa [held, hcancelable] using hheld

/-- No assertion of the thread fails, and it takes no mutex that has been destroyed. -/
theorem threadStep (h : Coordinated s) (hidle : s.thread ≠ .idle)
    (hlocks : s.thread.locks = true → s.held = false) {result : ReadFileResult}
    (habort : s.thread.reads = true → result = .aborted → s.cancelled = true) (duplicated : Bool) :
    ∃ t, s.threadStep duplicated result = some t ∧ Coordinated t := by
  have hregistered := h.registered
  have hdestroyed := h.destroyed
  have hlocked := h.locks
  rw [ZeroRead.threadStep]
  cases hthread : s.thread with
  | idle => exact absurd hthread hidle
  | begins =>
    rw [hthread] at hregistered
    change ∃ t, (if s.cancelable then _ else _) = some t ∧ _
    split_ifs with hcancelable
    · refine ⟨_, rfl, h.advance rfl rfl hregistered id ?_ nofun rfl nofun nofun⟩
      intro hfalse
      cases hfalse.symm.trans hcancelable
    · refine ⟨_, rfl, of_free ?_ hregistered (fun _ => rfl) nofun nofun nofun⟩
      by_contra hloop
      exact hcancelable ((h.pausable hloop).2 hthread)
  | locking =>
    rw [hthread] at hregistered hlocks hlocked
    obtain ⟨hcancelable, hloop⟩ := hlocked rfl (hlocks rfl)
    change ∃ t, (if s.cancelable = false then none else _) = some t ∧ _
    rw [if_neg (by simp [hcancelable])]
    refine ⟨_, rfl, of_free hloop ?_ ?_ nofun nofun nofun⟩
    · change (s.readfileThread || duplicated) = duplicated
      rw [hregistered]
      rfl
    · intro hfalse
      cases hfalse.symm.trans hcancelable
  | reading hThread =>
    rw [hthread] at hregistered hdestroyed habort
    refine ⟨_, rfl, { h with
      registered := hregistered
      pausable := fun _ => ⟨nofun, nofun⟩
      destroyed := hdestroyed
      cancelled := nofun
      aborted := fun hThread' haborted => ?_
      relocking := nofun }⟩
    cases haborted
    obtain ⟨hreading, hcall⟩ := h.cancelled (habort rfl rfl) (by rw [hthread]; rfl)
    cases hthread.symm.trans hreading
    exact ⟨rfl, hcall⟩
  | returned hThread result =>
    rw [hthread] at hregistered hdestroyed
    change ∃ t, (if result = .aborted ∧ s.cancelable then _ else _) = some t ∧ _
    split_ifs with haborted hreading
    · obtain ⟨rfl, -⟩ := h.aborted hThread (haborted.1 ▸ hthread)
      refine ⟨_, rfl, h.advance rfl rfl rfl (fun _ => rfl) ?_ nofun rfl nofun nofun⟩
      intro hfalse
      cases hfalse.symm.trans haborted.2
    · exact ⟨_, rfl, h.advance rfl rfl hregistered id hdestroyed nofun rfl nofun nofun⟩
    · exact ⟨_, rfl, h.advance rfl rfl hregistered id hdestroyed nofun rfl nofun nofun⟩
  | relocking hThread =>
    rw [hthread] at hlocks hlocked
    obtain ⟨hcancelable, hloop⟩ := hlocked rfl (hlocks rfl)
    change ∃ t, (if s.cancelable = false then none else _) = some t ∧ _
    rw [if_neg (by simp [hcancelable])]
    refine ⟨_, rfl, of_free hloop rfl ?_ nofun nofun nofun⟩
    intro hfalse
    cases hfalse.symm.trans hcancelable
  | finishing hThread success =>
    rw [hthread] at hregistered hdestroyed
    cases hThread with
    | false => exact ⟨_, rfl, h.advance rfl rfl hregistered id (fun _ => rfl) nofun rfl nofun nofun⟩
    | true =>
      change ∃ t, (if s.readfileThread = false then none else _) = some t ∧ _
      rw [if_neg (by simp [hregistered, ZeroThread.registered])]
      exact ⟨_, rfl, h.advance rfl rfl rfl (fun _ => rfl) hdestroyed nofun rfl nofun nofun⟩
  | unregistered success =>
    rw [hthread] at hregistered hlocks hlocked
    obtain ⟨hcancelable, -⟩ := hlocked rfl (hlocks rfl)
    change ∃ t, (if s.cancelable = false then none else _) = some t ∧ _
    rw [if_neg (by simp [hcancelable])]
    exact ⟨_, rfl, h.advance rfl rfl hregistered id (fun _ => rfl) nofun rfl nofun nofun⟩
  | posting success =>
    rw [hthread] at hregistered
    exact ⟨_, rfl, h.advance rfl rfl hregistered id (fun _ => rfl) nofun rfl nofun nofun⟩

end Coordinated

end ZeroRead

end LibuvWorks.Win
