import LibuvWorks.Unix.Async

/-!
# Every wake-up on unix is answered

A flag that is set is answered in stages: a thread writes, the loop comes to the descriptor, drains
it, and scans the handles. In each stage the loop has less to do, whatever the threads do.
-/
namespace LibuvWorks.Unix.AsyncLoop

open Transition Execution List Option Function

variable {ι : Type*} [DecidableEq ι] {fd : WakeUpFd} {s t : AsyncLoop ι} {h : ι} {n r : ℕ}
  {e : Event ι}

/-! ### What an event leaves alone -/

theorem proceed_cases (hnext : s.proceed fd = some t) :
    (s.phase = .poll ∧ t = { s with phase := .read }) ∨
    (s.phase = .read ∧ 1024 ≤ s.readable ∧ t = { s with readable := s.readable - 1024 }) ∨
    (s.phase = .read ∧ ∃ readable, t = { s with readable }.uvAsyncEvent) ∨
    (s.phase = .scan ∧ s.queue = [] ∧ t = { s with phase := .poll }) ∨
    (s.phase = .scan ∧ ∃ k queue, s.queue = k :: queue ∧ t = s.visit k queue) ∨
    (s.phase = .callback ∧ t = { s with phase := .scan }) := by
  rw [proceed] at hnext
  cases hphase : s.phase with
  | poll =>
    rw [hphase] at hnext
    exact .inl ⟨rfl, (Option.some.inj hnext).symm⟩
  | read =>
    rw [hphase] at hnext
    dsimp only [uvAsyncIo] at hnext
    split at hnext
    · obtain ⟨-, ht⟩ := ite_none_left_eq_some.mp hnext
      exact .inr (.inr (.inl ⟨rfl, 0, (Option.some.inj ht).symm⟩))
    · split at hnext
      · have hfull : min s.readable 1024 = 1024 := ‹_›
        rw [hfull] at hnext
        refine .inr (.inl ⟨rfl, by omega, ?_⟩)
        rw [← hphase]
        exact (Option.some.inj hnext).symm
      · exact .inr (.inr (.inl ⟨rfl, _, (Option.some.inj hnext).symm⟩))
  | scan =>
    rw [hphase] at hnext
    dsimp only at hnext
    split at hnext
    · exact .inr (.inr (.inr (.inl ⟨rfl, ‹_›, (Option.some.inj hnext).symm⟩)))
    · exact .inr (.inr (.inr (.inr (.inl ⟨rfl, _, _, ‹_›, (Option.some.inj hnext).symm⟩))))
  | callback =>
    rw [hphase] at hnext
    exact .inr (.inr (.inr (.inr (.inr ⟨rfl, (Option.some.inj hnext).symm⟩))))

theorem uvAsyncSend_handle (fd : WakeUpFd) (s : AsyncLoop ι) (c : SendCall ι) (k : ι) :
    Advances (s.handle k) ((s.uvAsyncSend fd c).handle k) := by
  rw [uvAsyncSend]
  cases c.stage with
  | read => exact .refl _
  | cmpxchg =>
    dsimp only
    split
    · exact .refl _
    · exact advances_update (.setPending _) k
  | write | done => exact .refl _

theorem step_advances (hstep : Step fd s e t) (k : ι) : Advances (s.handle k) (t.handle k) := by
  obtain ⟨henabled, hnext⟩ := ite_none_right_eq_some.mp hstep
  cases e with
  | init h asyncCb =>
    cases hnext
    exact advances_update (.of_fresh henabled.1) k
  | close h =>
    cases hnext
    exact advances_update (.close _) k
  | begin h =>
    cases hnext
    exact .refl _
  | send c =>
    cases hnext
    exact uvAsyncSend_handle fd s c k
  | loop =>
    rcases proceed_cases hnext with ⟨-, rfl⟩ | ⟨-, -, rfl⟩ | ⟨-, -, rfl⟩ | ⟨-, -, rfl⟩ |
      ⟨-, j, queue, -, rfl⟩ | ⟨-, rfl⟩
    · exact .refl _
    · exact .refl _
    · exact .refl _
    · exact .refl _
    · rw [visit_handle]
      exact advances_update (.start _) k
    · exact .refl _
  | idle =>
    cases hnext
    exact .refl _

theorem uvAsyncSend_rest (fd : WakeUpFd) (s : AsyncLoop ι) (c : SendCall ι) :
    (s.uvAsyncSend fd c).phase = s.phase ∧ s.readable ≤ (s.uvAsyncSend fd c).readable ∧
      (s.uvAsyncSend fd c).queue = s.queue ∧
      (s.uvAsyncSend fd c).asyncHandles = s.asyncHandles := by
  rw [uvAsyncSend]
  cases c.stage with
  | read => exact ⟨rfl, Nat.le_refl _, rfl, rfl⟩
  | cmpxchg =>
    dsimp only
    split
    · exact ⟨rfl, Nat.le_refl _, rfl, rfl⟩
    · exact ⟨rfl, Nat.le_refl _, rfl, rfl⟩
  | write =>
    refine ⟨rfl, ?_, rfl, rfl⟩
    dsimp only
    split <;> omega
  | done => exact ⟨rfl, Nat.le_refl _, rfl, rfl⟩

theorem step_rest (hstep : Step fd s e t) (hne : e ≠ .loop) :
    t.phase = s.phase ∧ s.readable ≤ t.readable ∧ t.queue.length ≤ s.queue.length ∧
      ∀ k ∈ s.queue, (t.handle k).status = .opened → k ∈ t.queue := by
  obtain ⟨-, hnext⟩ := ite_none_right_eq_some.mp hstep
  cases e with
  | close h =>
    cases hnext
    refine ⟨rfl, Nat.le_refl _, length_erase_le, ?_⟩
    intro k hk hopen
    refine (mem_erase_of_ne ?_).mpr hk
    rintro rfl
    have hclosed : ((s.uvAsyncClose k).handle k).status = .closed := by
      dsimp only [uvAsyncClose, setHandle]
      rw [update_self]
    cases hclosed.symm.trans hopen
  | send c =>
    cases hnext
    obtain ⟨hphase, hreadable, hqueue, -⟩ := s.uvAsyncSend_rest fd c
    exact ⟨hphase, hreadable, hqueue ▸ Nat.le_refl _, fun k hk _ => hqueue ▸ hk⟩
  | init h asyncCb | begin h | idle =>
    cases hnext
    exact ⟨rfl, Nat.le_refl _, Nat.le_refl _, fun k hk _ => hk⟩
  | loop => exact absurd rfl hne

theorem step_calls (hstep : Step fd s e t) {c : SendCall ι} (hc : c ∈ s.calls)
    (hne : e ≠ .send c) : c ∈ t.calls := by
  obtain ⟨-, hnext⟩ := ite_none_right_eq_some.mp hstep
  cases e with
  | send d =>
    have hcd : c ≠ d := fun heq => hne (heq ▸ rfl)
    have herase : c ∈ s.calls.erase d := (mem_erase_of_ne hcd).mpr hc
    cases hnext
    rw [uvAsyncSend]
    cases d.stage with
    | read => exact mem_cons_of_mem _ herase
    | cmpxchg =>
      dsimp only
      split
      · exact mem_cons_of_mem _ herase
      · exact mem_cons_of_mem _ herase
    | write => exact mem_cons_of_mem _ herase
    | done => exact herase
  | begin h =>
    cases hnext
    exact mem_cons_of_mem _ hc
  | loop =>
    rcases proceed_cases hnext with ⟨-, rfl⟩ | ⟨-, -, rfl⟩ | ⟨-, -, rfl⟩ | ⟨-, -, rfl⟩ |
      ⟨-, j, queue, -, rfl⟩ | ⟨-, rfl⟩
    · exact hc
    · exact hc
    · exact hc
    · exact hc
    · exact (s.visit_rest j queue).2.2.2.1 ▸ hc
    · exact hc
  | init h asyncCb | close h | idle =>
    cases hnext
    exact hc

/-! ### A flag that is set -/

/-- The handle is open and its flag is set, and its callback has started `n` times. -/
structure Owes (fd : WakeUpFd) (h : ι) (n : ℕ) (s : AsyncLoop ι) : Prop where
  settled : Settled fd s
  asyncCb : (s.handle h).asyncCb = true
  opened : (s.handle h).status = .opened
  pending : (s.handle h).pending = true
  starts : (s.handle h).starts = n

theorem Owes.step (hs : Owes fd h n s) (hstep : Step fd s e t) : Owes fd h n t ∨ Served h n t := by
  obtain ⟨hsettled, hcb, hopen, hpending, rfl⟩ := hs
  obtain ⟨henabled, -⟩ := ite_none_right_eq_some.mp hstep
  obtain ⟨u, hu, ht⟩ := hsettled.step henabled
  cases hstep.symm.trans hu
  have hknown : (s.handle h).status ≠ .fresh := by simp [hopen]
  obtain ⟨hcb', hstarts, hstatus, hflag⟩ := step_advances hstep h hknown
  rcases hstatus with hstatus | hclosed
  · rcases hflag hpending hcb with hkept | hlt
    · rcases Nat.lt_or_eq_of_le hstarts with hlt | heq
      · exact .inr (.inr hlt)
      · exact .inl ⟨ht, hcb'.trans hcb, hstatus.trans hopen, hkept, heq.symm⟩
    · exact .inr (.inr hlt)
  · exact .inr (.inl hclosed)

/-! ### The stages -/

/-- How much the scan has to do yet. -/
def scanRank (s : AsyncLoop ι) : ℕ :=
  match s.phase with
  | .poll | .read => 0
  | .scan => 2 * s.queue.length + 1
  | .callback => 2 * s.queue.length + 2

structure Scans (fd : WakeUpFd) (h : ι) (n r : ℕ) (s : AsyncLoop ι) : Prop where
  owes : Owes fd h n s
  mem : h ∈ s.queue
  rank : s.scanRank ≤ r

structure Awaits (fd : WakeUpFd) (h : ι) (n r : ℕ) (s : AsyncLoop ι) : Prop where
  owes : Owes fd h n s
  readable : 0 < s.readable
  phase : s.phase ≠ .read
  rank : s.scanRank ≤ r

theorem scanRank_le_of_step (hstep : Step fd s e t) (hne : e ≠ .loop) :
    t.scanRank ≤ s.scanRank := by
  obtain ⟨hphase, -, hlength, -⟩ := step_rest hstep hne
  rw [scanRank, scanRank, hphase]
  cases s.phase with
  | poll | read => exact Nat.le_refl _
  | scan | callback => dsimp only; omega

theorem scanRank_lt_of_loop (hnext : s.proceed fd = some t) (hpoll : s.phase ≠ .poll)
    (hread : s.phase ≠ .read) : t.scanRank < s.scanRank := by
  rcases proceed_cases hnext with ⟨hphase, -⟩ | ⟨hphase, -⟩ | ⟨hphase, -⟩ | ⟨hphase, -, rfl⟩ |
    ⟨hphase, k, queue, hqueue, rfl⟩ | ⟨hphase, rfl⟩
  · exact absurd hphase hpoll
  · exact absurd hphase hread
  · exact absurd hphase hread
  · simp [scanRank, hphase]
  · obtain ⟨hq, -, -, -, -, hleft⟩ := s.visit_rest k queue
    rcases hleft with hleft | hleft <;> simp only [scanRank, hleft, hphase, hq, hqueue,
      length_cons] <;> omega
  · simp [scanRank, hphase]

theorem scans_leadsTo {x : Execution (Step (ι := ι) fd)} (hloop : x.Fair (Enabled · .loop) .loop)
    (h : ι) (n r : ℕ) : x.LeadsTo (Scans fd h n r) (Served h n) := by
  have hinside {s : AsyncLoop ι} {r : ℕ} (hs : Scans fd h n r s) :
      s.phase ≠ .poll ∧ s.phase ≠ .read := by
    constructor
    · intro hphase
      exact not_mem_nil (hs.owes.settled.queue (.inl hphase) ▸ hs.mem)
    · intro hphase
      exact not_mem_nil (hs.owes.settled.queue (.inr hphase) ▸ hs.mem)
  refine hloop.leadsTo_of_rank (R := Scans fd h n) ?_ ?_ ?_ r
  · intro r m hs hpoll
    exact absurd hpoll (hinside hs).1
  · intro r m hs he
    have hstep := x.next m
    rw [he] at hstep
    obtain ⟨-, hnext⟩ := ite_none_right_eq_some.mp hstep
    obtain ⟨hpoll, hread⟩ := hinside hs
    have hlt := scanRank_lt_of_loop hnext hpoll hread
    rcases hs.owes.step hstep with howes | hserved
    · have hrank := hs.rank
      refine .inl ⟨_, by omega, howes, ?_, Nat.le_refl _⟩
      rcases proceed_cases hnext with ⟨hphase, -⟩ | ⟨hphase, -⟩ | ⟨hphase, -⟩ | ⟨-, hqueue, -⟩ |
        ⟨-, k, queue, hqueue, ht⟩ | ⟨-, ht⟩
      · exact absurd hphase hpoll
      · exact absurd hphase hread
      · exact absurd hphase hread
      · exact absurd (hqueue ▸ hs.mem) not_mem_nil
      · rw [ht, (visit_rest _ k queue).1]
        have hmem := hs.mem
        rw [hqueue] at hmem
        apply (mem_cons.mp hmem).resolve_left
        rintro rfl
        -- a visit clears the flag
        have hpending := howes.pending
        rw [ht, visit_handle, update_self] at hpending
        cases hpending
      · rw [ht]
        exact hs.mem
    · exact .inr hserved
  · intro r m hs hne
    rcases hs.owes.step (x.next m) with howes | hserved
    · obtain ⟨-, -, -, hkept⟩ := step_rest (x.next m) hne
      exact .inl ⟨howes, hkept h hs.mem howes.opened,
        Nat.le_trans (scanRank_le_of_step (x.next m) hne) hs.rank⟩
    · exact .inr hserved

def writers (s : AsyncLoop ι) : ℕ := s.calls.countP fun c => c.stage = .write

def unset (s : AsyncLoop ι) : ℕ := s.asyncHandles.countP fun k => !(s.handle k).pending

/-- A bound on the rounds of the `for` of `uv__async_io`. -/
def readRank (s : AsyncLoop ι) : ℕ := s.readable + s.writers + s.unset

structure Drains (fd : WakeUpFd) (h : ι) (n r : ℕ) (s : AsyncLoop ι) : Prop where
  owes : Owes fd h n s
  phase : s.phase = .read
  rank : s.readRank ≤ r

theorem writers_setStage {c : SendCall ι} (hc : c ∈ s.calls) (stage : SendStage) :
    (s.setStage c stage).writers + (if c.stage = .write then 1 else 0) =
      s.writers + if stage = .write then 1 else 0 := by
  have hperm := perm_cons_erase hc
  rw [writers, writers, hperm.countP_eq, setStage, countP_cons, countP_cons]
  simp only [decide_eq_true_eq]
  omega

theorem countP_setPending {xs : List ι} (hnodup : xs.Nodup) (hmem : h ∈ xs)
    {f : ι → AsyncHandle} (hpending : (f h).pending = false) {v : AsyncHandle}
    (hv : v.pending = true) :
    (xs.countP fun k => !(Function.update f h v k).pending) + 1 =
      xs.countP fun k => !(f k).pending := by
  have hperm := perm_cons_erase hmem
  have herase : h ∉ xs.erase h := fun h => (hnodup.mem_erase_iff.mp h).1 rfl
  have hsame : ((xs.erase h).countP fun k => !(Function.update f h v k).pending) =
      (xs.erase h).countP fun k => !(f k).pending := by
    apply countP_congr
    intro k hk
    rw [update_of_ne (ne_of_mem_of_not_mem hk herase)]
  rw [hperm.countP_eq, hperm.countP_eq, countP_cons, countP_cons, hsame,
    update_self, hv, hpending]
  rfl

theorem readRank_le_of_step (hs : Settled fd s) (hphase : s.phase = .read) (hstep : Step fd s e t)
    (hne : e ≠ .loop) : t.readRank ≤ s.readRank := by
  obtain ⟨henabled, hnext⟩ := ite_none_right_eq_some.mp hstep
  cases e with
  | init h asyncCb => rcases henabled.2 with hother | hother <;> cases hphase.symm.trans hother
  | close h => rcases henabled.2.1 with hother | hother <;> cases hphase.symm.trans hother
  | begin h =>
    cases hnext
    simp [readRank, writers, unset]
  | send c =>
    cases hnext
    have hcount := writers_setStage (s := s) henabled
    rw [uvAsyncSend]
    cases hstage : c.stage with
    | read =>
      have hstays : (if (s.handle c.handle).pending then SendStage.done else .cmpxchg) ≠ .write := by
        split <;> simp
      have hcount := hcount (if (s.handle c.handle).pending then .done else .cmpxchg)
      simp only [hstage, if_neg hstays, reduceCtorEq, ↓reduceIte] at hcount
      change s.readable + (s.setStage c _).writers + s.unset ≤ s.readable + s.writers + s.unset
      omega
    | cmpxchg =>
      dsimp only
      by_cases hpending : (s.handle c.handle).pending = true
      · have hcount := hcount .done
        simp only [hstage, reduceCtorEq, ↓reduceIte] at hcount
        rw [if_pos hpending]
        change s.readable + (s.setStage c _).writers + s.unset ≤ s.readable + s.writers + s.unset
        omega
      · have hopen := (hs.opened c.handle).mpr ((hs.calls c henabled).testing (.inr hstage))
        rw [hs.queue (.inr hphase), append_nil] at hopen
        set v : AsyncHandle := { s.handle c.handle with pending := true }
        have hflags := countP_setPending (f := s.handle) (v := v)
          (nodup_append.mp hs.nodup).1 hopen (by simpa using hpending) rfl
        have hcount := hcount .write
        simp only [hstage, reduceCtorEq, ↓reduceIte] at hcount
        rw [if_neg hpending]
        change s.readable + (s.setStage c .write).writers +
          (s.asyncHandles.countP fun k => !(Function.update s.handle c.handle v k).pending) ≤
            s.readable + s.writers + s.asyncHandles.countP fun k => !(s.handle k).pending
        omega
    | write =>
      have hcount := hcount .done
      simp only [hstage, reduceCtorEq, ↓reduceIte] at hcount
      change (if s.readable < fd.capacity then s.readable + 1 else s.readable) +
        (s.setStage c .done).writers + s.unset ≤ s.readable + s.writers + s.unset
      split <;> omega
    | done =>
      have hle : (s.calls.erase c).countP (fun c => c.stage = .write) ≤ s.writers :=
        erase_sublist.countP_le
      change s.readable + (s.calls.erase c).countP _ + s.unset ≤ s.readable + s.writers + s.unset
      omega
  | idle =>
    cases hnext
    exact Nat.le_refl _
  | loop => exact absurd rfl hne

section

variable {x : Execution (Step (ι := ι) fd)}

theorem drains_leadsTo (hloop : x.Fair (Enabled · .loop) .loop)
    (h : ι) (n r : ℕ) : x.LeadsTo (Drains fd h n r) (Served h n) := by
  have hscans : x.LeadsTo (Drains fd h n r) fun s => (∃ r, Scans fd h n r s) ∨ Served h n s := by
    refine hloop.leadsTo_of_rank (R := Drains fd h n) ?_ ?_ ?_ r
    · intro r m hs hpoll
      cases hs.phase.symm.trans hpoll
    · intro r m hs he
      have hstep := x.next m
      rw [he] at hstep
      rcases hs.owes.step hstep with howes | hserved
      · obtain ⟨-, hnext⟩ := ite_none_right_eq_some.mp hstep
        have hrank := hs.rank
        rcases proceed_cases hnext with ⟨hphase, -⟩ | ⟨-, hfull, ht⟩ | ⟨-, readable, ht⟩ |
          ⟨hphase, -⟩ | ⟨hphase, -⟩ | ⟨hphase, -⟩
        · cases hs.phase.symm.trans hphase
        · refine .inl ⟨r - 1024, ?_, howes, ?_, ?_⟩
          · rw [readRank] at hrank
            omega
          · rw [ht]
            exact hs.phase
          · rw [ht]
            simp only [readRank, writers, unset] at hrank ⊢
            omega
        · refine .inr (.inl ⟨_, howes, ?_, Nat.le_refl _⟩)
          have hopen := (hs.owes.settled.opened h).mpr hs.owes.opened
          rw [hs.owes.settled.queue (.inr hs.phase), append_nil] at hopen
          rw [ht]
          exact hopen
        · cases hs.phase.symm.trans hphase
        · cases hs.phase.symm.trans hphase
        · cases hs.phase.symm.trans hphase
      · exact .inr (.inr hserved)
    · intro r m hs hne
      rcases hs.owes.step (x.next m) with howes | hserved
      · have hle := readRank_le_of_step hs.owes.settled hs.phase (x.next m) hne
        obtain ⟨hphase, -⟩ := step_rest (x.next m) hne
        exact .inl ⟨howes, hphase.trans hs.phase, Nat.le_trans hle hs.rank⟩
      · exact .inr (.inr hserved)
  refine hscans.trans (LeadsTo.or ?_ .refl)
  rintro m ⟨r', hm⟩
  exact scans_leadsTo hloop h n r' m hm

theorem awaits_leadsTo (hloop : x.Fair (Enabled · .loop) .loop)
    (h : ι) (n r : ℕ) : x.LeadsTo (Awaits fd h n r) (Served h n) := by
  have hdrains : x.LeadsTo (Awaits fd h n r) fun s => (∃ r, Drains fd h n r s) ∨ Served h n s := by
    refine hloop.leadsTo_of_rank (R := Awaits fd h n) ?_ ?_ ?_ r
    · exact fun r m hs _ => hs.readable
    · intro r m hs he
      have hstep := x.next m
      rw [he] at hstep
      rcases hs.owes.step hstep with howes | hserved
      · obtain ⟨-, hnext⟩ := ite_none_right_eq_some.mp hstep
        have hrank := hs.rank
        have hreadable := hs.readable
        rcases proceed_cases hnext with ⟨-, ht⟩ | ⟨hphase, -⟩ | ⟨hphase, -⟩ | ⟨hphase, -, ht⟩ |
          ⟨hphase, k, queue, -, ht⟩ | ⟨hphase, ht⟩
        · exact .inr (.inl ⟨_, howes, by rw [ht], Nat.le_refl _⟩)
        · exact absurd hphase hs.phase
        · exact absurd hphase hs.phase
        · have hlt := scanRank_lt_of_loop hnext (by simp [hphase]) hs.phase
          refine .inl ⟨_, by omega, howes, ?_, by simp [ht], Nat.le_refl _⟩
          rw [ht]
          exact hreadable
        · have hlt := scanRank_lt_of_loop hnext (by simp [hphase]) hs.phase
          obtain ⟨-, -, hsame, -, -, hleft⟩ := visit_rest (x.state m) k queue
          rw [hphase] at hleft
          refine .inl ⟨_, by omega, howes, ?_, ?_, Nat.le_refl _⟩
          · rw [ht, hsame]
            exact hreadable
          · rw [ht]
            rcases hleft with hleft | hleft <;> simp [hleft]
        · have hlt := scanRank_lt_of_loop hnext (by simp [hphase]) hs.phase
          refine .inl ⟨_, by omega, howes, ?_, by simp [ht], Nat.le_refl _⟩
          rw [ht]
          exact hreadable
      · exact .inr (.inr hserved)
    · intro r m hs hne
      rcases hs.owes.step (x.next m) with howes | hserved
      · obtain ⟨hphase, hreadable, -⟩ := step_rest (x.next m) hne
        exact .inl ⟨howes, Nat.lt_of_lt_of_le hs.readable hreadable, hphase ▸ hs.phase,
          Nat.le_trans (scanRank_le_of_step (x.next m) hne) hs.rank⟩
      · exact .inr (.inr hserved)
  refine hdrains.trans (LeadsTo.or ?_ .refl)
  rintro m ⟨r', hm⟩
  exact drains_leadsTo hloop h n r' m hm

theorem writes_leadsTo {c : SendCall ι}
    (hsend : x.Fair (Enabled · (.send c)) (.send c)) (h : ι) (n : ℕ) :
    x.LeadsTo (fun s => Owes fd h n s ∧ c ∈ s.calls ∧ c.stage = .write)
      fun s => (Owes fd h n s ∧ 0 < s.readable) ∨ Served h n s := by
  apply hsend.leadsTo (fun m hs => hs.2.1)
  · rintro m ⟨howes, hc, hstage⟩ he
    have hstep := x.next m
    rw [he] at hstep
    refine (howes.step hstep).imp_left fun howes => ⟨howes, ?_⟩
    obtain ⟨-, hnext⟩ := ite_none_right_eq_some.mp hstep
    have ht : x.state (m + 1) = (x.state m).uvAsyncSend fd c := (Option.some.inj hnext).symm
    rw [ht, uvAsyncSend, hstage]
    have hcapacity := fd.pos
    dsimp only
    split <;> omega
  · rintro m ⟨howes, hc, hstage⟩ hne
    rcases howes.step (x.next m) with howes | hserved
    · exact .inl ⟨howes, step_calls (x.next m) hc hne, hstage⟩
    · exact .inr (.inr hserved)

theorem readable_leadsTo
    (hloop : x.Fair (Enabled · .loop) .loop) (h : ι) (n : ℕ) :
    x.LeadsTo (fun s => Owes fd h n s ∧ 0 < s.readable) (Served h n) := by
  rintro m ⟨howes, hreadable⟩
  by_cases hphase : (x.state m).phase = .read
  · exact drains_leadsTo hloop h n _ m ⟨howes, hphase, Nat.le_refl _⟩
  · exact awaits_leadsTo hloop h n _ m ⟨howes, hreadable, hphase, Nat.le_refl _⟩

theorem owes_leadsTo (hloop : x.Fair (Enabled · .loop) .loop)
    (hsend : ∀ c, x.Fair (Enabled · (.send c)) (.send c)) (h : ι) (n : ℕ) :
    x.LeadsTo (Owes fd h n) (Served h n) := by
  intro m howes
  rcases howes.settled.outstanding h howes.opened howes.pending with
    ⟨c, hc, -, hstage⟩ | hreadable | hphase | hmem
  · exact ((writes_leadsTo (hsend c) h n).trans ((readable_leadsTo hloop h n).or .refl)) m
      ⟨howes, hc, hstage⟩
  · exact readable_leadsTo hloop h n m ⟨howes, hreadable⟩
  · exact drains_leadsTo hloop h n _ m ⟨howes, hphase, Nat.le_refl _⟩
  · exact scans_leadsTo hloop h n _ m ⟨howes, hmem, Nat.le_refl _⟩

theorem returned_leadsTo
    (hreach : Reachable Init (Step fd) (x.state 0)) (hloop : x.Fair (Enabled · .loop) .loop)
    (hsend : ∀ c, x.Fair (Enabled · (.send c)) (.send c)) (m : ℕ) {c : ι × ℕ × ℕ}
    (hc : c ∈ (x.state m).returned) (hcb : ((x.state m).handle c.1).asyncCb = true) :
    ∃ m', m ≤ m' ∧ Served c.1 c.2.1 (x.state m') := by
  have hsettled := Settled.of_reachable (x.reachable hreach m)
  obtain ⟨-, hle, hanswers⟩ := hsettled.returned c hc
  rcases hanswers hcb with hserved | ⟨hopen, hpending⟩
  · exact ⟨m, Nat.le_refl m, hserved⟩
  · rcases Nat.lt_or_eq_of_le hle with hlt | heq
    · exact ⟨m, Nat.le_refl m, .inr hlt⟩
    · exact owes_leadsTo hloop hsend c.1 c.2.1 m ⟨hsettled, hcb, hopen, hpending, heq.symm⟩

end

end LibuvWorks.Unix.AsyncLoop
