import LibuvWorks.Win.Barriers

/-!
# Returns of `uv_barrier_wait`

In every round one call returns a value that is not 0, no call returns before all threads have
entered the round, and a call of a round that all have entered cannot be held up.
-/
namespace LibuvWorks.Win

open List Option Function Nat
open Function (update)
open Mutex Threads Transition

namespace BarrierPc

/-- The call of the thread will return a value that is not 0. -/
def serial : BarrierPc → Bool
  | .drain1 | .post2 => true
  | .unlock2 serial | .pass2 serial | .repost2 serial => serial
  | _ => false

def closes : BarrierPc → Bool
  | .drain1 | .post2 => true
  | _ => false

/-- How far a call has come. -/
def place : BarrierPc → ℕ
  | .idle => 0
  | .lock1 => 1
  | .count1 => 2
  | .wait2 => 3
  | .post1 => 4
  | .unlock1 => 5
  | .wait1 => 6
  | .repost1 => 7
  | .lock2 => 8
  | .count2 => 9
  | .drain1 => 10
  | .post2 => 11
  | .unlock2 _ => 12
  | .pass2 _ => 13
  | .repost2 _ => 14

theorem place_lt (pc : BarrierPc) : pc.place < 15 := by
  cases pc <;> simp only [place, reduceLT]

theorem inMutex_of_closes {pc : BarrierPc} (h : pc.closes = true) : pc.inMutex = true := by
  cases pc <;> first | rfl | cases h

end BarrierPc

namespace BarrierThread

/-- The call of round `k` returned a value that is not 0, or will. -/
def SerialIn (x : BarrierThread) (k : ℕ) : Prop :=
  x.returns[k]? = some true ∨ (k = x.returns.length ∧ x.pc.serial = true)

def place (x : BarrierThread) : ℕ := 15 * x.returns.length + x.pc.place

theorem serialIn_finish (entered entered' : ℕ) (returns : List Bool) (serial : Bool) (k : ℕ) :
    SerialIn ⟨.idle, entered', returns ++ [serial]⟩ k ↔
      SerialIn ⟨.repost2 serial, entered, returns⟩ k := by
  constructor
  · rintro (h | ⟨-, h⟩)
    · rcases Nat.lt_trichotomy k returns.length with hlt | rfl | hgt
      · rw [List.getElem?_append_left hlt] at h
        exact .inl h
      · rw [List.getElem?_concat_length] at h
        exact .inr ⟨rfl, Option.some.inj h⟩
      · have hk := (List.getElem?_eq_some_iff.mp h).1
        rw [length_append] at hk
        change k < returns.length + 1 at hk
        omega
    · cases h
  · rintro (h | ⟨rfl, h⟩)
    · have hlt : k < returns.length := (List.getElem?_eq_some_iff.mp h).1
      left
      rw [List.getElem?_append_left hlt]
      exact h
    · left
      rw [List.getElem?_concat_length]
      exact congrArg some h

end BarrierThread

namespace Barrier

variable {τ : Type*} [DecidableEq τ] [Fintype τ] {s t : Barrier τ} {i j : τ} {e : Event τ}
  {phase phase' : BarrierPhase} {gen gen' : ℕ} {es : List (Event τ)}

structure Serial (gen : ℕ) (s : Barrier τ) : Prop where
  unique : ∀ k, k < gen → ∃ i, ∀ j, (s.thread j).SerialIn k ↔ j = i
  early : ∀ j k, (s.thread j).SerialIn k → k < gen ∨ (s.thread j).pc.closes = true

namespace Serial

variable {entered : ℕ} {returns : List Bool}

theorem put (h : Serial gen s) {x y : BarrierThread} (hi : s.thread i = y)
    (hsame : ∀ k, k < gen → (x.SerialIn k ↔ y.SerialIn k))
    (hearly : ∀ k, x.SerialIn k → k < gen ∨ x.pc.closes = true)
    (ht : t.thread = update s.thread i x) : Serial gen t := by
  subst hi
  constructor
  · intro k hk
    obtain ⟨i', hi'⟩ := h.unique k hk
    refine ⟨i', fun j => ?_⟩
    rw [ht, ← hi' j]
    by_cases e : j = i
    · subst e
      rw [update_self]
      exact hsame k hk
    · rw [update_of_ne e]
  · rw [ht]
    exact forall_update (P := fun _ (x : BarrierThread) =>
      ∀ k, x.SerialIn k → k < gen ∨ x.pc.closes = true) h.early hearly

theorem goOn (h : Serial gen s) {pc pc' : BarrierPc} {entered' : ℕ}
    (hi : s.thread i = ⟨pc, entered, returns⟩)
    (ht : t.thread = update s.thread i ⟨pc', entered', returns⟩)
    (hserial : pc'.serial = pc.serial) (hcloses : pc.closes = true → pc'.closes = true) :
    Serial gen t := by
  have hsame : ∀ k, BarrierThread.SerialIn ⟨pc', entered', returns⟩ k ↔
      BarrierThread.SerialIn ⟨pc, entered, returns⟩ k := by
    intro k
    change _ ∨ (_ ∧ pc'.serial = true) ↔ _
    rw [hserial]
    exact Iff.rfl
  apply h.put hi (fun k _ => hsame k) _ ht
  intro k hk
  have hold := h.early i k (by rw [hi]; exact (hsame k).mp hk)
  rw [hi] at hold
  exact hold.imp_right hcloses

theorem elect (h : Serial gen s)
    (hi : s.thread i = ⟨.count2, entered, returns⟩) (hround : returns.length = gen)
    (ht : t.thread = update s.thread i ⟨.drain1, entered, returns⟩) : Serial gen t := by
  apply h.put hi _ (fun k _ => .inr rfl) ht
  intro k hk
  constructor
  · rintro (hret | ⟨rfl, -⟩)
    · exact .inl hret
    · exact absurd hround hk.ne
  · rintro (hret | ⟨-, habs⟩)
    · exact .inl hret
    · cases habs

/-- A round ends: nobody but the last thread to leave it returns a value that is not 0. -/
theorem endRound (h : Serial gen s)
    (hi : s.thread i = ⟨.post2, entered, returns⟩) (hround : returns.length = gen)
    (halone : ∀ j, (s.thread j).pc.closes = true → j = i)
    (ht : t.thread = update s.thread i ⟨.unlock2 true, entered, returns⟩) :
    Serial (gen + 1) t := by
  have hlt : ∀ j k, (t.thread j).SerialIn k → k < gen + 1 := by
    rw [ht]
    apply forall_update (P := fun _ (x : BarrierThread) => ∀ k, x.SerialIn k → k < gen + 1)
    · intro j k hk
      rcases h.early j k hk with hold | hcloses
      · omega
      · cases halone j hcloses
        rw [hi] at hk
        rcases hk with hret | ⟨rfl, -⟩
        · have hlen : k < returns.length := (List.getElem?_eq_some_iff.mp hret).1
          omega
        · change returns.length < gen + 1
          omega
    · rintro k (hret | ⟨rfl, -⟩)
      · have hlen : k < returns.length := (List.getElem?_eq_some_iff.mp hret).1
        omega
      · change returns.length < gen + 1
        omega
  refine ⟨fun k hk => ?_, fun j k hk => .inl (hlt j k hk)⟩
  rcases Nat.lt_succ_iff_lt_or_eq.mp hk with hlt' | rfl
  · obtain ⟨i', hi'⟩ := h.unique k hlt'
    refine ⟨i', fun j => ?_⟩
    rw [ht, ← hi' j]
    by_cases e : j = i
    · subst e
      rw [update_self, hi]
      exact Iff.rfl
    · rw [update_of_ne e]
  · refine ⟨i, fun j => ?_⟩
    rw [ht]
    by_cases e : j = i
    · subst e
      rw [update_self]
      exact iff_of_true (.inr ⟨hround.symm, rfl⟩) rfl
    · rw [update_of_ne e]
      refine iff_of_false (fun hk => ?_) e
      rcases h.early j k hk with hold | hcloses
      · exact absurd hold (Nat.lt_irrefl k)
      · exact e (halone j hcloses)

end Serial

/-! ### Every turn keeps the rounds in order. -/

def InRounds (s : Barrier τ) : Prop := ∃ phase gen, Turning phase gen s ∧ Serial gen s

omit [Fintype τ] in
theorem goto_thread {pc : BarrierPc} (pc' : BarrierPc) {entered : ℕ} {returns : List Bool}
    (hi : s.thread i = ⟨pc, entered, returns⟩) :
    (s.goto i pc').thread = update s.thread i ⟨pc', entered, returns⟩ := by
  rw [goto, hi]

omit [DecidableEq τ] in
theorem Turning.closes_alone (h : Turning phase gen s) (hi : (s.thread i).pc.closes = true)
    (hj : (s.thread j).pc.closes = true) : j = i :=
  h.guards.unique (BarrierPc.inMutex_of_closes hj) (BarrierPc.inMutex_of_closes hi)

theorem InRounds.call (h : InRounds s) (hidle : (s.thread i).pc = .idle) :
    InRounds (s.call i) := by
  obtain ⟨phase, gen, hturning, hserial⟩ := h
  refine ⟨phase, gen, hturning.call hidle, ?_⟩
  cases hi : s.thread i with
  | mk pc entered returns =>
    rw [hi] at hidle
    cases show pc = .idle from hidle
    have hthread : (s.call i).thread = update s.thread i ⟨.lock1, entered + 1, returns⟩ := by
      rw [Barrier.call, hi]
    exact hserial.goOn hi hthread rfl (Bool.false_le _)

theorem InRounds.turn (h : InRounds s) (ht : s.turn i = some t) : InRounds t := by
  obtain ⟨phase, gen, hturning, hserial⟩ := h
  cases hi : s.thread i with
  | mk pc entered returns =>
    rw [Barrier.turn, hi] at ht
    cases pc with
    | idle => cases ht
    | lock1 =>
      refine ⟨phase, gen, hturning.lock .count1 hi (.inl ⟨rfl, rfl⟩) ht, ?_⟩
      obtain ⟨-, ht⟩ := ite_none_right_eq_some.mp ht
      cases ht
      exact hserial.goOn hi (goto_thread .count1 hi) rfl (Bool.false_le _)
    | count1 =>
      cases ht
      refine ⟨phase, gen, ?_, ?_⟩
      · simpa only [goto, hi] using hturning.count1 hi
      · dsimp only
        split
        · exact hserial.goOn hi (goto_thread .wait2 hi) rfl (Bool.false_le _)
        · exact hserial.goOn hi (goto_thread .unlock1 hi) rfl (Bool.false_le _)
    | wait2 =>
      refine ⟨.armed, gen, hturning.wait2 hi ht, ?_⟩
      obtain ⟨-, ht⟩ := ite_none_right_eq_some.mp ht
      cases ht
      exact hserial.goOn hi (goto_thread .post1 hi) rfl (Bool.false_le _)
    | post1 =>
      cases ht
      exact ⟨.release, gen, (hturning.post1 hi).2,
        hserial.goOn hi (goto_thread .unlock1 hi) rfl (Bool.false_le _)⟩
    | unlock1 =>
      cases ht
      exact ⟨phase, gen, hturning.unlock .wait1 hi (.inl ⟨rfl, rfl⟩),
        hserial.goOn hi (goto_thread .wait1 hi) rfl (Bool.false_le _)⟩
    | wait1 =>
      refine ⟨phase, gen, hturning.wait1 hi ht, ?_⟩
      obtain ⟨-, ht⟩ := ite_none_right_eq_some.mp ht
      cases ht
      exact hserial.goOn hi (goto_thread .repost1 hi) rfl (Bool.false_le _)
    | repost1 =>
      cases ht
      exact ⟨phase, gen, hturning.repost1 hi,
        hserial.goOn hi (goto_thread .lock2 hi) rfl (Bool.false_le _)⟩
    | lock2 =>
      refine ⟨phase, gen, hturning.lock .count2 hi (.inr ⟨rfl, rfl⟩) ht, ?_⟩
      obtain ⟨-, ht⟩ := ite_none_right_eq_some.mp ht
      cases ht
      exact hserial.goOn hi (goto_thread .count2 hi) rfl (Bool.false_le _)
    | count2 =>
      cases ht
      refine ⟨phase, gen, ?_, ?_⟩
      · simpa only [goto, hi] using hturning.count2 hi
      · dsimp only
        split
        · exact hserial.elect hi (hturning.round_of_count2 hi) (goto_thread .drain1 hi)
        · exact hserial.goOn hi (goto_thread (.unlock2 false) hi) rfl (Bool.false_le _)
    | drain1 =>
      refine ⟨.closing, gen, hturning.drain1 hi ht, ?_⟩
      obtain ⟨-, ht⟩ := ite_none_right_eq_some.mp ht
      cases ht
      exact hserial.goOn hi (goto_thread .post2 hi) rfl (fun _ => rfl)
    | post2 =>
      cases ht
      obtain ⟨rfl, hended⟩ := hturning.post2 hi
      have hplaced := hturning.placed i
      rw [hi] at hplaced
      have hcloses : (s.thread i).pc.closes = true := by
        rw [hi]
        rfl
      exact ⟨.gather, gen + 1, hended, hserial.endRound hi hplaced.round
        (fun j => hturning.closes_alone hcloses) (goto_thread (.unlock2 true) hi)⟩
    | unlock2 serial =>
      cases ht
      exact ⟨phase, gen, hturning.unlock (.pass2 serial) hi (.inr ⟨serial, rfl, rfl⟩),
        hserial.goOn hi (goto_thread (.pass2 serial) hi) rfl (Bool.false_le _)⟩
    | pass2 serial =>
      refine ⟨phase, gen, hturning.pass2 hi ht, ?_⟩
      obtain ⟨-, ht⟩ := ite_none_right_eq_some.mp ht
      cases ht
      exact hserial.goOn hi (goto_thread (.repost2 serial) hi) rfl (Bool.false_le _)
    | repost2 serial =>
      cases ht
      refine ⟨phase, gen, hturning.finish hi, ?_⟩
      apply hserial.put hi (x := ⟨.idle, entered, returns ++ [serial]⟩)
      · exact fun k _ => BarrierThread.serialIn_finish entered entered returns serial k
      · intro k hk
        have hold := hserial.early i k (by
          rw [hi]
          exact (BarrierThread.serialIn_finish entered entered returns serial k).mp hk)
        rw [hi] at hold
        exact hold.imp_right (Bool.false_le _)
      · rw [Barrier.finish, hi]

theorem InRounds.init (hcard : 0 < Fintype.card τ) :
    InRounds (uvBarrierInit τ (Fintype.card τ)) := by
  refine ⟨.gather, 0, ?_, ?_⟩
  · constructor
    · rfl
    · exact fun j => iff_of_false nofun nofun
    · exact (total_eq_zero.mpr fun _ => rfl).symm
    · exact congrArg (0 + ·) (total_eq_zero.mpr fun _ => rfl)
    · exact congrArg (1 + ·) (total_eq_zero.mpr fun _ => rfl)
    · exact fun j => ⟨rfl, rfl, rfl⟩
    · exact fun j => nofun
    · intro pc hpc
      obtain ⟨habs, -⟩ := ite_none_right_eq_some.mp hpc
      exact absurd habs hcard.ne
  · constructor
    · exact fun k hk => absurd hk (Nat.not_lt_zero k)
    · rintro j k (habs | ⟨-, habs⟩)
      · cases habs
      · cases habs

theorem InRounds.of_step (h : InRounds s) (hst : Step s e t) : InRounds t := by
  cases e with
  | call i =>
    obtain ⟨hidle, ht⟩ := ite_none_right_eq_some.mp hst
    cases ht
    exact h.call hidle
  | turn i => exact h.turn hst

theorem InRounds.of_reachable [Nonempty τ]
    (h : Reachable (· = uvBarrierInit τ (Fintype.card τ)) Step s) : InRounds s := by
  refine h.invariant ?_ fun _ _ _ _ hs hst => hs.of_step hst
  rintro _ rfl
  exact .init Fintype.card_pos

/-! ### Nobody returns early, and one call of a round returns a value that is not 0. -/

section

omit [DecidableEq τ]

theorem Turning.returned_le (h : Turning phase gen s) (i : τ) :
    (s.thread i).returns.length ≤ gen := by
  rw [← (h.placed i).round]
  exact Nat.le_add_right _ _

theorem Turning.le_entered (h : Turning phase gen s) (i : τ) : gen ≤ (s.thread i).entered := by
  rw [← (h.placed i).round, (h.placed i).entered]
  cases phase with
  | gather =>
    by_cases hidle : (s.thread i).pc = .idle
    · rw [hidle, if_pos rfl]
      exact le_rfl
    · rw [if_neg hidle, BarrierPhase.gate2, if_pos rfl, Nat.one_mul]
      exact Nat.add_le_add_left (Bool.toNat_le _) _
  | _ => exact Nat.add_le_add_left ((Nat.zero_mul _).trans_le (Nat.zero_le _)) _

theorem InRounds.le_entered (h : InRounds s) (i j : τ) :
    (s.thread i).returns.length ≤ (s.thread j).entered := by
  obtain ⟨phase, gen, hturning, -⟩ := h
  exact (hturning.returned_le i).trans (hturning.le_entered j)

theorem InRounds.existsUnique_serial [Nonempty τ] (h : InRounds s) {k : ℕ}
    (hall : ∀ i, k < (s.thread i).returns.length) :
    ∃! i, (s.thread i).returns[k]? = some true := by
  obtain ⟨phase, gen, hturning, hserial⟩ := h
  have hserialIn : ∀ i, (s.thread i).SerialIn k ↔ (s.thread i).returns[k]? = some true := by
    intro i
    constructor
    · rintro (h | ⟨habs, -⟩)
      · exact h
      · exact absurd habs (hall i).ne
    · exact .inl
  have hk : k < gen := (hall (Classical.arbitrary τ)).trans_le (hturning.returned_le _)
  obtain ⟨i, hi⟩ := hserial.unique k hk
  refine ⟨i, ?_, fun j hj => ?_⟩
  · exact (hserialIn i).mp ((hi i).mpr rfl)
  · exact (hi j).mp ((hserialIn j).mpr hj)

end

/-! ### Nobody is held up. -/

theorem Turning.turn_of_inMutex (h : Turning phase gen s) (hin : (s.thread i).pc.inMutex = true) :
    ∃ t, s.turn i = some t := by
  cases hi : s.thread i with
  | mk pc entered returns =>
    rw [hi] at hin
    rw [Barrier.turn, hi]
    have hallowed := h.allowed hi
    cases pc with
    | count1 | post1 | unlock1 | count2 | post2 | unlock2 serial => exact ⟨_, rfl⟩
    | wait2 =>
      have hgather : phase = .gather := by
        cases phase <;> first | rfl | cases hallowed
      subst hgather
      have hdue := h.turns i (by rw [hi]; rfl)
      rw [hi] at hdue
      obtain ⟨hfull, -⟩ := ite_none_right_eq_some.mp hdue
      exact ⟨_, if_pos (h.open2_of_full hfull)⟩
    | drain1 =>
      have hrelease : phase = .release := by
        cases phase <;> first | rfl | cases hallowed
      subst hrelease
      have hdue := h.turns i (by rw [hi]; rfl)
      rw [hi] at hdue
      obtain ⟨hzero, -⟩ := ite_none_right_eq_some.mp hdue
      exact ⟨_, if_pos (h.open1_of_empty hzero)⟩
    | _ => cases hin

omit [DecidableEq τ] in
theorem Turning.not_due_of_free (h : Turning phase gen s) (hfree : s.mutex = none) :
    phase.due s.n s.count = none := by
  cases hdue : phase.due s.n s.count with
  | none => rfl
  | some pc =>
    obtain ⟨j, rfl⟩ := h.watch pc hdue
    have howner := (h.guards j).mpr (BarrierPc.inMutex_of_turns (BarrierPhase.turns_of_due hdue))
    cases hfree.symm.trans howner

theorem Turning.turn_of_release (h : Turning .release gen s) (hfree : s.mutex = none) :
    ∃ j t, s.turn j = some t := by
  have hpos : 0 < s.count := by
    have hdue := h.not_due_of_free hfree
    by_contra hzero
    rw [BarrierPhase.due, if_pos (Nat.eq_zero_of_not_pos hzero)] at hdue
    cases hdue
  rw [h.count] at hpos
  obtain ⟨j, hj⟩ := exists_of_total_pos hpos
  have hallowed := (h.placed j).allowed
  have hout : (s.thread j).pc.inMutex = false := by
    by_contra hin
    cases hfree.symm.trans ((h.guards j).mpr (eq_true_of_ne_false hin))
  have hcounted : (s.thread j).pc.counted = true := by
    by_contra hnot
    rw [BarrierThread.counted, eq_false_of_ne_true hnot] at hj
    exact absurd hj (Nat.lt_irrefl 0)
  rcases BarrierPc.cases_of_release hallowed hcounted hout with hpc | hpc | hpc
  · by_cases hopen : 0 < s.turnstile1
    · exact ⟨j, _, by rw [Barrier.turn, hpc]; exact if_pos hopen⟩
    · have hgate : s.turnstile1 + _ = 1 := h.gate1
      have hreposts : 0 < total s.thread BarrierThread.reposts1 := by omega
      obtain ⟨j', hj'⟩ := exists_of_total_pos hreposts
      have hpc' : (s.thread j').pc = .repost1 := by
        by_contra hne
        rw [BarrierThread.reposts1, if_neg hne] at hj'
        cases hj'
      exact ⟨j', _, by rw [Barrier.turn, hpc']⟩
  · exact ⟨j, _, by rw [Barrier.turn, hpc]⟩
  · exact ⟨j, _, by rw [Barrier.turn, hpc]; exact if_pos hfree⟩

theorem Turning.waits_of_stuck (h : Turning .gather gen s) (hfree : s.mutex = none)
    (hstuck : ∀ j t, s.turn j ≠ some t) (j : τ) :
    (s.thread j).pc = .idle ∨ (s.thread j).pc = .wait1 := by
  have hallowed := (h.placed j).allowed
  have hout : (s.thread j).pc.inMutex = false := by
    by_contra hin
    cases hfree.symm.trans ((h.guards j).mpr (eq_true_of_ne_false hin))
  have hnone : ∀ j' serial, (s.thread j').pc ≠ .repost2 serial := by
    intro j' serial hpc
    exact hstuck j' _ (by rw [Barrier.turn, hpc])
  rcases BarrierPc.cases_of_gather hallowed hout with hpc | hpc | hpc | ⟨serial, hpc | hpc⟩
  · exact .inl hpc
  · exact absurd (by rw [Barrier.turn, hpc]; exact if_pos hfree) (hstuck j _)
  · exact .inr hpc
  · have hgate : s.turnstile2 + _ = 1 := h.gate2
    have hreposts : total s.thread BarrierThread.reposts2 = 0 := by
      refine total_eq_zero.mpr fun j' => ?_
      rw [BarrierThread.reposts2]
      split
      · next habs => exact absurd habs (hnone j' _)
      · rfl
    have hopen : 0 < s.turnstile2 := by omega
    exact absurd (by rw [Barrier.turn, hpc]; exact if_pos hopen) (hstuck j _)
  · exact absurd hpc (hnone j serial)

/-- While a thread is in a round that all have entered, some thread can go on. -/
theorem Turning.not_stuck (h : Turning phase gen s) (hbusy : (s.thread i).pc ≠ .idle)
    (hall : ∀ j, (s.thread i).entered ≤ (s.thread j).entered) : ∃ j t, s.turn j = some t := by
  cases hmutex : s.mutex with
  | some j => exact ⟨j, h.turn_of_inMutex ((h.guards j).mp hmutex)⟩
  | none =>
    have hdue := h.not_due_of_free hmutex
    cases phase with
    | armed | closing => cases hdue
    | release => exact h.turn_of_release hmutex
    | gather =>
      by_contra habs
      have hstuck : ∀ j t, s.turn j ≠ some t := fun j t ht => habs ⟨j, t, ht⟩
      have hwaits := h.waits_of_stuck hmutex hstuck
      have hentered : ∀ j, (s.thread j).entered = gen + if (s.thread j).pc = .idle then 0 else 1 := by
        intro j
        have hround := (h.placed j).round
        have hleaves : (s.thread j).pc.leaves = false := by
          rcases hwaits j with hpc | hpc
          · rw [hpc]
            rfl
          · rw [hpc]
            rfl
        rw [hleaves] at hround
        rw [(h.placed j).entered, ← hround]
        rfl
      -- Nobody is idle, so the last of them should have opened the first turnstile.
      have hcounted : ∀ j, (s.thread j).counted = 1 := by
        intro j
        rcases hwaits j with hpc | hpc
        · have hle := hall j
          rw [hentered i, hentered j, if_neg hbusy, if_pos hpc] at hle
          omega
        · rw [BarrierThread.counted, hpc]
          rfl
      have hfull : s.count = s.n := by
        rw [h.count, h.size]
        exact total_eq_card hcounted
      rw [BarrierPhase.due, if_pos hfull] at hdue
      cases hdue

def Further (s t : Barrier τ) : Prop :=
  ∃ i x, t.thread = update s.thread i x ∧ (s.thread i).place < x.place

section

omit [Fintype τ]

theorem Further.goto {pc : BarrierPc} (pc' : BarrierPc) {entered : ℕ} {returns : List Bool}
    (hi : s.thread i = ⟨pc, entered, returns⟩) (hlt : pc.place < pc'.place)
    (ht : t.thread = (s.goto i pc').thread) : Further s t := by
  refine ⟨i, ⟨pc', entered, returns⟩, ht.trans (goto_thread pc' hi), ?_⟩
  rw [hi]
  exact Nat.add_lt_add_left hlt _

theorem further_of_turn (ht : s.turn i = some t) : Further s t := by
  cases hi : s.thread i with
  | mk pc entered returns =>
    rw [Barrier.turn, hi] at ht
    cases pc with
    | idle => cases ht
    | lock1 =>
      obtain ⟨-, ht⟩ := ite_none_right_eq_some.mp ht
      cases ht
      exact .goto .count1 hi (by decide) rfl
    | count1 =>
      cases ht
      apply Further.goto _ hi _ rfl
      split
      · decide
      · decide
    | wait2 =>
      obtain ⟨-, ht⟩ := ite_none_right_eq_some.mp ht
      cases ht
      exact .goto .post1 hi (by decide) rfl
    | post1 =>
      cases ht
      exact .goto .unlock1 hi (by decide) rfl
    | unlock1 =>
      cases ht
      exact .goto .wait1 hi (by decide) rfl
    | wait1 =>
      obtain ⟨-, ht⟩ := ite_none_right_eq_some.mp ht
      cases ht
      exact .goto .repost1 hi (by decide) rfl
    | repost1 =>
      cases ht
      exact .goto .lock2 hi (by decide) rfl
    | lock2 =>
      obtain ⟨-, ht⟩ := ite_none_right_eq_some.mp ht
      cases ht
      exact .goto .count2 hi (by decide) rfl
    | count2 =>
      cases ht
      apply Further.goto _ hi _ rfl
      split
      · decide
      · decide
    | drain1 =>
      obtain ⟨-, ht⟩ := ite_none_right_eq_some.mp ht
      cases ht
      exact .goto .post2 hi (by decide) rfl
    | post2 =>
      cases ht
      exact .goto (.unlock2 true) hi (by decide) rfl
    | unlock2 serial =>
      cases ht
      exact .goto (.pass2 serial) hi (lt_succ_self 12) rfl
    | pass2 serial =>
      obtain ⟨-, ht⟩ := ite_none_right_eq_some.mp ht
      cases ht
      exact .goto (.repost2 serial) hi (lt_succ_self 13) rfl
    | repost2 serial =>
      cases ht
      refine ⟨i, ⟨.idle, entered, returns ++ [serial]⟩, by rw [Barrier.finish, hi], ?_⟩
      rw [hi, BarrierThread.place, BarrierThread.place, length_append]
      change 15 * returns.length + 14 < 15 * (returns.length + 1) + 0
      omega

theorem further_of_step (hst : Step s e t) : Further s t := by
  cases e with
  | call i =>
    obtain ⟨hidle, ht⟩ := ite_none_right_eq_some.mp hst
    cases ht
    refine ⟨i, _, rfl, ?_⟩
    rw [BarrierThread.place, BarrierThread.place, hidle]
    exact lt_succ_self _
  | turn i => exact further_of_turn hst

end

theorem length_le_of_run (hrun : Run Step s es t) :
    total s.thread BarrierThread.place + es.length ≤ total t.thread BarrierThread.place := by
  induction hrun with
  | nil => exact le_rfl
  | @cons s _ _ _ _ hst _ ih =>
    obtain ⟨i, x, ht, hlt⟩ := further_of_step hst
    rw [ht] at ih
    have hplace := total_update s.thread BarrierThread.place i x
    rw [length_cons]
    omega

theorem InRounds.of_run (h : InRounds s) (hrun : Run Step s es t) : InRounds t := by
  induction hrun with
  | nil => exact h
  | cons hst _ ih => exact ih (h.of_step hst)

omit [DecidableEq τ] in
theorem Turning.le_returned (h : Turning phase gen s) (i : τ) :
    gen ≤ (s.thread i).returns.length + 1 := by
  rw [← (h.placed i).round]
  apply Nat.add_le_add_left
  calc phase.gate2 * (s.thread i).pc.leaves.toNat ≤ 1 * 1 :=
        Nat.mul_le_mul (by rw [BarrierPhase.gate2]; split <;> decide) (Bool.toNat_le _)
    _ = 1 := rfl

theorem InRounds.length_le (h : InRounds s) (hrun : Run Step s es t)
    (hreturns : (t.thread i).returns = (s.thread i).returns) :
    es.length ≤ 44 * Fintype.card τ := by
  obtain ⟨_, gen', ht, -⟩ := h.of_run hrun
  obtain ⟨_, gen, hs, -⟩ := h
  have hlength := length_le_of_run hrun
  have hplaces : ∀ j, (t.thread j).place ≤ (s.thread j).place + 44 := by
    intro j
    have hpc := (t.thread j).pc.place_lt
    have hold := hs.le_returned j
    have hnew := ht.returned_le j
    have hlow := hs.returned_le i
    have hhigh := ht.le_returned i
    rw [hreturns] at hhigh
    rw [BarrierThread.place, BarrierThread.place]
    omega
  have htotal := total_le_add hplaces
  omega

/-! ### Main result -/

/-- On a barrier for all threads, no call returns before every thread has made as many calls; when
the calls of a round have all returned, exactly one of them returned a value that is not 0; and
while a call is in a round that all threads have entered, some thread can go on, and the call
returns before the threads have gone on for long. -/
theorem uvBarrierWait_rounds [Nonempty τ]
    (h : Reachable (· = uvBarrierInit τ (Fintype.card τ)) Step s) :
    (∀ i j, (s.thread i).returns.length ≤ (s.thread j).entered) ∧
      (∀ k, (∀ i, k < (s.thread i).returns.length) →
        ∃! i, (s.thread i).returns[k]? = some true) ∧
      ∀ i, (s.thread i).pc ≠ .idle → (∀ j, (s.thread i).entered ≤ (s.thread j).entered) →
        (∃ j t, s.turn j = some t) ∧
          ∀ es t, Run Step s es t → (t.thread i).returns = (s.thread i).returns →
            es.length ≤ 44 * Fintype.card τ := by
  have hrounds := InRounds.of_reachable h
  refine ⟨hrounds.le_entered, fun k => hrounds.existsUnique_serial, fun i hbusy hall => ⟨?_, ?_⟩⟩
  · obtain ⟨_, _, hturning, -⟩ := hrounds
    exact hturning.not_stuck hbusy hall
  · exact fun es t => hrounds.length_le

def twoRounds : List (Event (Fin 2)) :=
  [.call 0, .call 1] ++ List.replicate 3 (.turn 0) ++ List.replicate 10 (.turn 1) ++
    List.replicate 9 (.turn 0) ++ List.replicate 2 (.turn 1) ++ [.call 0, .call 1]

def twoRoundsRun : Option (Barrier (Fin 2)) :=
  twoRounds.foldlM step (uvBarrierInit (Fin 2) (Fintype.card (Fin 2)))

theorem twoRoundsRun_isSome : twoRoundsRun.isSome = true := by
  rfl

theorem uvBarrierWait_rounds_two :
    (∃! i, ((twoRoundsRun.get twoRoundsRun_isSome).thread i).returns[0]? = some true) ∧
      ∃ j t, (twoRoundsRun.get twoRoundsRun_isSome).turn j = some t := by
  have hrun : Reachable (· = uvBarrierInit (Fin 2) (Fintype.card (Fin 2))) Step
      (twoRoundsRun.get twoRoundsRun_isSome) :=
    .of_foldlM (.init rfl) (Option.some_get twoRoundsRun_isSome).symm
  constructor
  · exact (uvBarrierWait_rounds hrun).2.1 0 (by decide)
  · exact ((uvBarrierWait_rounds hrun).2.2 0 (by decide) (by decide)).1

end Barrier

end LibuvWorks.Win
