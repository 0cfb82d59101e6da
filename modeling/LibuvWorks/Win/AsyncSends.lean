import LibuvWorks.Win.Async

/-!
# Every wake-up on Windows is answered

The packet of a flag that is set is posted, moves to the front of the port, is dequeued by a poll,
and is processed before the next poll.
-/
namespace LibuvWorks.Win.AsyncLoop

open Transition Execution List Option Function

variable {ι : Type*} [DecidableEq ι] {batch : ℕ} {s t : AsyncLoop ι} {h : ι} {n r : ℕ}
  {e : Event ι}

/-! ### What an event leaves alone -/

theorem Advances.trans {u v w : AsyncHandle} (huv : Advances u v) (hvw : Advances v w) :
    Advances u w := by
  intro hu
  obtain ⟨hv, hcb, hstarts, hclosing, hsent⟩ := huv hu
  obtain ⟨hw, hcb', hstarts', hclosing', hsent'⟩ := hvw hv
  refine ⟨hw, hcb'.trans hcb, Nat.le_trans hstarts hstarts', fun h => hclosing' (hclosing h), ?_⟩
  intro hset hset'
  rcases hsent hset hset' with hkept | hclosed | hlt
  · rcases hsent' hkept (hcb.trans hset') with hkept | hclosed | hlt
    · exact .inl hkept
    · exact .inr (.inl hclosed)
    · exact .inr (.inr (Nat.lt_of_le_of_lt hstarts hlt))
  · exact .inr (.inl (hclosing' hclosed))
  · exact .inr (.inr (Nat.lt_of_lt_of_le hlt hstarts'))

theorem Advances.close (v : AsyncHandle) : Advances v { v with closing := true } :=
  fun hknown => ⟨hknown, rfl, Nat.le_refl _, fun _ => rfl, fun hsent _ => .inl hsent⟩

def SameLists (s t : AsyncLoop ι) : Prop :=
  t.port = s.port ∧ t.pendingReqs = s.pendingReqs ∧ t.reqs = s.reqs ∧ t.calls = s.calls

theorem uvWantEndgame_spec (s : AsyncLoop ι) (h : ι) : SameLists s (s.uvWantEndgame h) ∧
    ∃ endgameQueued, (s.uvWantEndgame h).handle =
      Function.update s.handle h { s.handle h with endgameQueued } := by
  rw [uvWantEndgame]
  split
  · exact ⟨⟨rfl, rfl, rfl, rfl⟩, _, (update_eq_self h s.handle).symm⟩
  · exact ⟨⟨rfl, rfl, rfl, rfl⟩, true, rfl⟩

theorem uvAsyncClose_spec (hnext : s.uvAsyncClose h = some t) : SameLists s t ∧
    ∀ k, Advances (s.handle k) (t.handle k) := by
  obtain ⟨-, ht⟩ := ite_none_left_eq_some.mp hnext
  dsimp only at ht
  split at ht
  · cases ht
    exact ⟨⟨rfl, rfl, rfl, rfl⟩, advances_update (.close _)⟩
  · cases ht
    obtain ⟨hlists, endgameQueued, hhandle⟩ := s.uvWantEndgame_spec h
    refine ⟨hlists, fun k => ?_⟩
    have hqueued : Advances (s.handle k) ((s.uvWantEndgame h).handle k) := by
      rw [hhandle]
      exact advances_update (.queue _ _) k
    exact hqueued.trans (advances_update (.close _) k)

theorem uvProcessAsyncWakeupReq_spec (s : AsyncLoop ι) (h : ι) :
    SameLists s (s.uvProcessAsyncWakeupReq h) ∧
      ((s.uvProcessAsyncWakeupReq h).handle h).asyncSent = false ∧
      ∀ k, Advances (s.handle k) ((s.uvProcessAsyncWakeupReq h).handle k) := by
  have hself (v : AsyncHandle) : (s.setHandle h v).handle h = v := update_self ..
  rw [uvProcessAsyncWakeupReq]
  dsimp only
  rw [hself]
  by_cases hclosing : (s.handle h).closing = true
  · rw [if_pos hclosing]
    set u := s.setHandle h { s.handle h with asyncSent := false }
    obtain ⟨hlists, endgameQueued, hhandle⟩ := u.uvWantEndgame_spec h
    have hcleared (k : ι) : Advances (s.handle k) (u.handle k) := by
      refine advances_update ?_ k
      exact fun hknown => ⟨hknown, rfl, Nat.le_refl _, id, fun _ _ => .inr (.inl hclosing)⟩
    refine ⟨hlists, ?_, fun k => (hcleared k).trans ?_⟩
    · rw [hhandle, update_self]
      exact congrArg AsyncHandle.asyncSent (hself _)
    · rw [hhandle]
      exact advances_update (.queue _ _) k
  · rw [if_neg hclosing]
    by_cases hcb : (s.handle h).asyncCb = true
    · rw [if_pos hcb]
      refine ⟨⟨rfl, rfl, rfl, rfl⟩, ?_, fun k => ?_⟩
      · dsimp only [setHandle]
        rw [update_self]
      · dsimp only [setHandle]
        rw [update_idem]
        refine advances_update ?_ k
        exact fun hknown =>
          ⟨hknown, rfl, Nat.le_succ _, id, fun _ _ => .inr (.inr (Nat.lt_succ_self _))⟩
    · rw [if_neg hcb]
      refine ⟨⟨rfl, rfl, rfl, rfl⟩, congrArg AsyncHandle.asyncSent (hself _), ?_⟩
      exact advances_update fun hknown =>
        ⟨hknown, rfl, Nat.le_refl _, id, fun _ hset => absurd hset hcb⟩

theorem uvAsyncEndgame_spec (hnext : s.uvAsyncEndgame h = some t) : SameLists s t ∧
    ∀ k, Advances (s.handle k) (t.handle k) := by
  rw [uvAsyncEndgame] at hnext
  split at hnext
  · obtain ⟨-, ht⟩ := ite_none_left_eq_some.mp hnext
    cases ht
    exact ⟨⟨rfl, rfl, rfl, rfl⟩, advances_update (.setClosed _)⟩
  · cases hnext
    exact ⟨⟨rfl, rfl, rfl, rfl⟩, fun k => .refl _⟩

theorem uvAsyncSend_spec (s : AsyncLoop ι) (c : SendCall ι) :
    (∃ more, (s.uvAsyncSend c).port = s.port ++ more) ∧
      (s.uvAsyncSend c).pendingReqs = s.pendingReqs ∧ (s.uvAsyncSend c).reqs = s.reqs ∧
      ∀ k, Advances (s.handle k) ((s.uvAsyncSend c).handle k) := by
  have hnone : s.port = s.port ++ [] := (append_nil _).symm
  rw [uvAsyncSend]
  cases c.stage with
  | exchange =>
    dsimp only
    split
    · exact ⟨⟨[], hnone⟩, rfl, rfl, fun k => .refl _⟩
    · exact ⟨⟨[], hnone⟩, rfl, rfl, advances_update (.setSent _)⟩
  | post => exact ⟨⟨_, rfl⟩, rfl, rfl, fun k => .refl _⟩
  | done => exact ⟨⟨[], hnone⟩, rfl, rfl, fun k => .refl _⟩

def Dequeued (s : AsyncLoop ι) (h : ι) : Prop := some h ∈ s.pendingReqs ∨ some h ∈ s.reqs

omit [DecidableEq ι] in
theorem SameLists.dequeued (hst : SameLists s t) (hs : Dequeued s h) : Dequeued t h := by
  rw [Dequeued, hst.2.1, hst.2.2.1]
  exact hs

/-- The loop goes on: the handles advance, and a packet that was dequeued stays until it is
processed. -/
theorem proceed_spec (hs : Settled s) (hnext : s.proceed = some t) :
    t.port = s.port ∧ t.calls = s.calls ∧ (∀ k, Advances (s.handle k) (t.handle k)) ∧
      ∀ k, Dequeued s k → Dequeued t k ∨ (t.handle k).asyncSent = false := by
  rw [proceed] at hnext
  split at hnext
  · rename_i hphase
    cases hnext
    refine ⟨rfl, rfl, fun k => .refl _, fun k hk => .inl (.inr ?_)⟩
    have hreqs := hs.reqs (by simp [hphase])
    exact hk.resolve_right (by simp [hreqs])
  · split at hnext
    · cases hnext
      exact ⟨rfl, rfl, fun k => .refl _, fun k hk => .inl hk⟩
    · rename_i reqs hreqs
      cases hnext
      refine ⟨rfl, rfl, fun k => .refl _, fun k hk => .inl (hk.imp_right fun hmem => ?_)⟩
      simpa [hreqs] using hmem
    · rename_i h reqs hreqs
      cases hnext
      obtain ⟨⟨hport, hpending, hsame, hcalls⟩, hcleared, hadv⟩ :=
        { s with reqs }.uvProcessAsyncWakeupReq_spec h
      refine ⟨hport, hcalls, hadv, fun k hk => ?_⟩
      by_cases hkh : k = h
      · subst hkh
        exact .inr hcleared
      · left
        rw [Dequeued, hpending, hsame]
        apply hk.imp_right
        intro hmem
        rw [hreqs] at hmem
        exact (mem_cons.mp hmem).resolve_left (by simpa using hkh)
  · cases hnext
  · split at hnext
    · cases hnext
      exact ⟨rfl, rfl, fun k => .refl _, fun k hk => .inl hk⟩
    · obtain ⟨hlists, hadv⟩ := uvAsyncEndgame_spec hnext
      refine ⟨hlists.1, hlists.2.2.2, fun k => ?_, fun k hk => .inl (hlists.dequeued hk)⟩
      exact (advances_update (.queue _ _) k).trans (hadv k)

theorem step_advances (hs : Settled s) (hstep : Step batch s e t) (k : ι) :
    Advances (s.handle k) (t.handle k) := by
  obtain ⟨henabled, hnext⟩ := ite_none_right_eq_some.mp hstep
  cases e with
  | init h asyncCb =>
    cases hnext
    exact advances_update (.of_fresh henabled) k
  | close h => exact (uvAsyncClose_spec hnext).2 k
  | begin h =>
    cases hnext
    exact .refl _
  | send c =>
    cases hnext
    exact (s.uvAsyncSend_spec c).2.2.2 k
  | loop => exact (proceed_spec hs hnext).2.2.1 k
  | poll | posted | inserted | idle =>
    cases hnext
    exact .refl _

/-- The port is only added to until the loop polls, and a packet that was dequeued stays until it
is processed. -/
theorem step_rest (hs : Settled s) (hstep : Step batch s e t) (hne : e ≠ .poll) :
    (∃ more, t.port = s.port ++ more) ∧
      ∀ k, Dequeued s k → Dequeued t k ∨ (t.handle k).asyncSent = false := by
  obtain ⟨-, hnext⟩ := ite_none_right_eq_some.mp hstep
  have hnone : s.port = s.port ++ [] := (append_nil _).symm
  cases e with
  | close h =>
    obtain ⟨hlists, -⟩ := uvAsyncClose_spec hnext
    exact ⟨⟨[], hlists.1.trans hnone⟩, fun k hk => .inl (hlists.dequeued hk)⟩
  | send c =>
    cases hnext
    obtain ⟨hport, hpending, hreqs, -⟩ := s.uvAsyncSend_spec c
    refine ⟨hport, fun k hk => .inl ?_⟩
    rw [Dequeued, hpending, hreqs]
    exact hk
  | loop =>
    obtain ⟨hport, -, -, hdequeued⟩ := proceed_spec hs hnext
    exact ⟨⟨[], hport.trans hnone⟩, hdequeued⟩
  | poll => exact absurd rfl hne
  | posted =>
    cases hnext
    exact ⟨⟨_, rfl⟩, fun k hk => .inl hk⟩
  | inserted =>
    cases hnext
    exact ⟨⟨[], hnone⟩, fun k hk => .inl (hk.imp_left (mem_append_left _))⟩
  | init h asyncCb | begin h | idle =>
    cases hnext
    exact ⟨⟨[], hnone⟩, fun k hk => .inl hk⟩

theorem step_calls (hs : Settled s) (hstep : Step batch s e t) {c : SendCall ι}
    (hc : c ∈ s.calls) (hne : e ≠ .send c) : c ∈ t.calls := by
  obtain ⟨-, hnext⟩ := ite_none_right_eq_some.mp hstep
  cases e with
  | send d =>
    have hcd : c ≠ d := fun heq => hne (heq ▸ rfl)
    have herase : c ∈ s.calls.erase d := (mem_erase_of_ne hcd).mpr hc
    cases hnext
    rw [uvAsyncSend]
    cases d.stage with
    | exchange =>
      dsimp only
      split
      · exact mem_cons_of_mem _ herase
      · exact mem_cons_of_mem _ herase
    | post => exact mem_cons_of_mem _ herase
    | done => exact herase
  | close h => exact (uvAsyncClose_spec hnext).1.2.2.2 ▸ hc
  | begin h =>
    cases hnext
    exact mem_cons_of_mem _ hc
  | loop => exact (proceed_spec hs hnext).2.1 ▸ hc
  | init h asyncCb | poll | posted | inserted | idle =>
    cases hnext
    exact hc

/-! ### A flag that is set -/

/-- The handle is open and its flag is set, and its callback has started `n` times. -/
structure Owes (h : ι) (n : ℕ) (s : AsyncLoop ι) : Prop where
  settled : Settled s
  known : (s.handle h).known = true
  opened : (s.handle h).closing = false
  asyncCb : (s.handle h).asyncCb = true
  asyncSent : (s.handle h).asyncSent = true
  starts : (s.handle h).starts = n

theorem Owes.step (hs : Owes h n s) (hstep : Step batch s e t) : Owes h n t ∨ Served h n t := by
  obtain ⟨hsettled, hknown, -, hcb, hsent, rfl⟩ := hs
  obtain ⟨henabled, -⟩ := ite_none_right_eq_some.mp hstep
  obtain ⟨u, hu, ht⟩ := hsettled.step batch henabled
  obtain rfl := Option.some.inj (hstep.symm.trans hu)
  obtain ⟨hknown', hcb', hstarts, -, hflag⟩ := step_advances hsettled hstep h hknown
  by_cases hclosing : (t.handle h).closing = true
  · exact .inr (.inl hclosing)
  · rcases Nat.lt_or_eq_of_le hstarts with hlt | heq
    · exact .inr (.inr hlt)
    · rcases hflag hsent hcb with hkept | hset | hlt
      · exact .inl ⟨ht, hknown', Bool.eq_false_iff.mpr hclosing, hcb'.trans hcb, hkept, heq.symm⟩
      · exact absurd hset hclosing
      · exact .inr (.inr hlt)

/-! ### The stages -/

/-- The packet is behind at most `r` others in the port. -/
structure Posted (h : ι) (n r : ℕ) (s : AsyncLoop ι) : Prop where
  owes : Owes h n s
  port : ∃ ahead rest, s.port = ahead ++ some h :: rest ∧ ahead.length ≤ r

section

variable {x : Execution (Step (ι := ι) batch)}

theorem dequeued_leadsTo
    (hpoll : x.Fair (fun _ => True) .poll) (h : ι) (n : ℕ) :
    x.LeadsTo (fun s => Owes h n s ∧ Dequeued s h) (Served h n) := by
  apply hpoll.leadsTo (fun _ _ => trivial)
  · rintro m ⟨howes, hdequeued⟩ he
    have hstep := x.next m
    rw [he] at hstep
    obtain ⟨henabled, -⟩ := ite_none_right_eq_some.mp hstep
    have hphase : (x.state m).phase = .poll := henabled
    rcases hdequeued with hmem | hmem
    · exact absurd hmem (howes.settled.pendingReqs (.inr hphase) h)
    · rw [howes.settled.reqs (by simp [hphase])] at hmem
      exact absurd hmem not_mem_nil
  · rintro m ⟨howes, hdequeued⟩ hne
    have hsettled := howes.settled
    refine (howes.step (x.next m)).imp_left fun howes => ⟨howes, ?_⟩
    apply ((step_rest hsettled (x.next m) hne).2 h hdequeued).resolve_right
    rw [howes.asyncSent]
    nofun

theorem posted_leadsTo (hbatch : 0 < batch)
    (hpoll : x.Fair (fun _ => True) .poll) (h : ι) (n r : ℕ) :
    x.LeadsTo (Posted h n r) (Served h n) := by
  have hdequeues : x.LeadsTo (Posted h n r) fun s =>
      (Owes h n s ∧ Dequeued s h) ∨ Served h n s := by
    refine hpoll.leadsTo_of_rank (R := Posted h n) (fun _ _ _ => trivial) ?_ ?_ r
    · rintro r m ⟨howes, ahead, rest, hport, hle⟩ he
      have hstep := x.next m
      rw [he] at hstep
      obtain ⟨-, hnext⟩ := ite_none_right_eq_some.mp hstep
      have ht : x.state (m + 1) = (x.state m).uvPoll batch := (Option.some.inj hnext).symm
      rcases howes.step hstep with howes | hserved
      · by_cases hshort : ahead.length < batch
        · refine .inr (.inl ⟨howes, .inl ?_⟩)
          rw [ht]
          apply mem_append_right _
          rw [hport, take_append]
          apply mem_append_right _
          obtain ⟨d, hd⟩ := Nat.exists_eq_add_of_lt hshort
          have hleft : batch - ahead.length = d + 1 := by omega
          rw [hleft, take_succ_cons]
          exact mem_cons_self
        · refine .inl ⟨r - batch, by omega, howes, ahead.drop batch, rest, ?_, ?_⟩
          · rw [ht]
            change (x.state m).port.drop batch = _
            rw [hport, drop_append_of_le_length (by omega)]
          · rw [length_drop]
            omega
      · exact .inr (.inr hserved)
    · rintro r m ⟨howes, ahead, rest, hport, hle⟩ hne
      have hsettled := howes.settled
      rcases howes.step (x.next m) with howes | hserved
      · obtain ⟨⟨more, hmore⟩, -⟩ := step_rest hsettled (x.next m) hne
        refine .inl ⟨howes, ahead, rest ++ more, ?_, hle⟩
        rw [hmore, hport, append_assoc, cons_append]
      · exact .inr (.inr hserved)
  exact hdequeues.trans ((dequeued_leadsTo hpoll h n).or .refl)

theorem posts_leadsTo {c : SendCall ι}
    (hsend : x.Fair (Enabled · (.send c)) (.send c)) (n : ℕ) :
    x.LeadsTo (fun s => Owes c.handle n s ∧ c ∈ s.calls ∧ c.stage = .post)
      fun s => (∃ r, Posted c.handle n r s) ∨ Served c.handle n s := by
  apply hsend.leadsTo (fun m hs => hs.2.1)
  · rintro m ⟨howes, hc, hstage⟩ he
    have hstep := x.next m
    rw [he] at hstep
    apply (howes.step hstep).imp_left
    intro howes
    obtain ⟨-, hnext⟩ := ite_none_right_eq_some.mp hstep
    have ht : x.state (m + 1) = (x.state m).uvAsyncSend c := (Option.some.inj hnext).symm
    refine ⟨_, howes, (x.state m).port, [], ?_, Nat.le_refl _⟩
    rw [ht, uvAsyncSend, hstage]
  · rintro m ⟨howes, hc, hstage⟩ hne
    have hsettled := howes.settled
    rcases howes.step (x.next m) with howes | hserved
    · exact .inl ⟨howes, step_calls hsettled (x.next m) hc hne, hstage⟩
    · exact .inr (.inr hserved)

end

theorem Settled.outstanding (hs : Settled s) (hknown : (s.handle h).known = true)
    (hsent : (s.handle h).asyncSent = true) :
    (∃ c ∈ s.calls, c.handle = h ∧ c.stage = .post) ∨ some h ∈ s.port ∨ Dequeued s h := by
  by_contra hnone
  rw [not_or, not_or, Dequeued, not_or] at hnone
  obtain ⟨hcalls, hport, hpending, hreqs⟩ := hnone
  have hpackets := hs.packets h
  rw [if_pos ⟨hknown, hsent⟩, AsyncLoop.packets, count_eq_zero.mpr hport,
    count_eq_zero.mpr hpending, count_eq_zero.mpr hreqs] at hpackets
  have hpos : 0 < s.calls.countP (fun c => c.handle = h ∧ c.stage = .post) := by omega
  obtain ⟨c, hc, hpost⟩ := countP_pos_iff.mp hpos
  exact hcalls ⟨c, hc, by simpa using hpost⟩

theorem owes_leadsTo {x : Execution (Step (ι := ι) batch)} (hbatch : 0 < batch)
    (hpoll : x.Fair (fun _ => True) .poll)
    (hsend : ∀ c, x.Fair (Enabled · (.send c)) (.send c)) (h : ι) (n : ℕ) :
    x.LeadsTo (Owes h n) (Served h n) := by
  intro m howes
  rcases howes.settled.outstanding howes.known howes.asyncSent with
    ⟨c, hc, rfl, hstage⟩ | hmem | hdequeued
  · obtain ⟨m', hle, hposted | hserved⟩ := posts_leadsTo (hsend c) n m ⟨howes, hc, hstage⟩
    · obtain ⟨r, hposted⟩ := hposted
      obtain ⟨m'', hle', hserved⟩ := posted_leadsTo hbatch hpoll c.handle n r m' hposted
      exact ⟨m'', Nat.le_trans hle hle', hserved⟩
    · exact ⟨m', hle, hserved⟩
  · obtain ⟨ahead, rest, hport⟩ := append_of_mem hmem
    exact posted_leadsTo hbatch hpoll h n _ m ⟨howes, ahead, rest, hport, Nat.le_refl _⟩
  · exact dequeued_leadsTo hpoll h n m ⟨howes, hdequeued⟩

theorem returned_leadsTo {x : Execution (Step (ι := ι) batch)} (hbatch : 0 < batch)
    (hreach : Reachable Init (Step batch) (x.state 0)) (hpoll : x.Fair (fun _ => True) .poll)
    (hsend : ∀ c, x.Fair (Enabled · (.send c)) (.send c)) (m : ℕ) {c : ι × ℕ × ℕ}
    (hc : c ∈ (x.state m).returned) (hcb : ((x.state m).handle c.1).asyncCb = true) :
    ∃ m', m ≤ m' ∧ Served c.1 c.2.1 (x.state m') := by
  have hsettled := Settled.of_reachable (x.reachable hreach m)
  obtain ⟨hknown, hle, hanswers⟩ := hsettled.returned c hc
  rcases hanswers hcb with hserved | hsent
  · exact ⟨m, Nat.le_refl m, hserved⟩
  · by_cases hclosing : ((x.state m).handle c.1).closing = true
    · exact ⟨m, Nat.le_refl m, .inl hclosing⟩
    · rcases Nat.lt_or_eq_of_le hle with hlt | heq
      · exact ⟨m, Nat.le_refl m, .inr hlt⟩
      · exact owes_leadsTo hbatch hpoll hsend c.1 c.2.1 m
          ⟨hsettled, hknown, Bool.eq_false_iff.mpr hclosing, hcb, hsent, heq.symm⟩

end LibuvWorks.Win.AsyncLoop
