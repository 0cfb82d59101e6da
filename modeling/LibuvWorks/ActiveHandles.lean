import LibuvWorks.NextTimeout
import LibuvWorks.Unix.ActiveHandles
import LibuvWorks.Win.ActiveHandles

/-!
# What keeps a loop alive

On both backends the count of active handles is the number of handles that the flags
select, as far as 32 bits hold it, and a loop with fewer handles is alive exactly when one of these,
a request or a pending close is left.
-/
namespace LibuvWorks

open Transition Finset

variable {ι γ : Type*} [DecidableEq ι]

/-- The count in every state that the macros and the steps of a close lead to. -/
theorem activeHandles_count :
    (∀ s : Unix.HandleSet ι γ, Reachable Unix.HandleSet.Init Unix.HandleSet.Step s →
      s.loop.activeHandles = UInt32.ofNat s.activeRefs.card ∧
      (s.handleQueue.card < 2 ^ 32 → s.loop.activeHandles.toNat = s.activeRefs.card ∧
        (Unix.uvLoopAlive s.loop = true ↔ s.activeRefs.Nonempty ∨ 0 < s.loop.activeReqs ∨
          s.loop.closingHandles ≠ []))) ∧
    ∀ s : Win.HandleSet ι γ, Reachable Win.HandleSet.Init Win.HandleSet.Step s →
      s.loop.activeHandles = UInt32.ofNat (s.activeRefs.card + s.closings.card) ∧
      (s.handleQueue.card < 2 ^ 32 →
        s.loop.activeHandles.toNat = s.activeRefs.card + s.closings.card ∧
        (Win.uvLoopAlive s.loop = true ↔ s.activeRefs.Nonempty ∨ s.closings.Nonempty ∨
          0 < s.loop.activeReqs ∨ s.loop.endgameHandles ≠ [])) := by
  constructor
  · intro s hs
    have hcount := Unix.HandleSet.counted_of_reachable hs
    refine ⟨hcount.tally, fun hsmall => ⟨hcount.tally.exact hsmall, ?_⟩⟩
    rw [hcount.alive_iff hsmall]
    simp only [Finset.Nonempty, Unix.HandleSet.activeRefs, Finset.mem_filter]
  · intro s hs
    have hcount := Win.HandleSet.counted_of_reachable hs
    rw [← Win.HandleSet.card_counted]
    exact ⟨hcount.tally, fun hsmall => ⟨hcount.tally.exact hsmall, hcount.alive_iff hsmall⟩⟩

namespace Unix.HandleSet

/-- An idle loop before its handles are initialised. -/
def fresh : HandleSet ℕ Unit where
  loop := idleLoop 0
  handleQueue := ∅
  closingRun := []
  finishing := none

theorem init_fresh : Init fresh := ⟨rfl, rfl, rfl, fun _ => rfl⟩

end Unix.HandleSet

def Win.HandleSet.fresh : Win.HandleSet ℕ Unit where
  loop := winIdleLoop 0
  handleQueue := ∅

/-- On unix a referenced timer that is started keeps the loop alive; on Windows an inactive one
does while it is closing. -/
theorem activeHandles_count_timer :
    (∃ s : Unix.HandleSet ℕ Unit, s.activeRefs.card = 1 ∧ s.loop.activeHandles.toNat = 1 ∧
      Unix.uvLoopAlive s.loop = true) ∧
    ∃ s : Win.HandleSet ℕ Unit, s.closings.card = 1 ∧ s.loop.activeHandles.toNat = 1 ∧
      Win.uvLoopAlive s.loop = true := by
  constructor
  · have hsome : ([Unix.HandleSet.Event.init (.timer 0), .start (.timer 0)].foldlM
        Unix.HandleSet.step Unix.HandleSet.fresh).isSome = true := by rfl
    obtain ⟨-, hexact⟩ := activeHandles_count.1 _
      (.of_foldlM (.init Unix.HandleSet.init_fresh) (Option.some_get hsome).symm)
    obtain ⟨hcount, halive⟩ := hexact (Nat.lt_of_le_of_lt (Nat.le_refl 1) (by decide))
    have hcard := hcount.symm.trans (by rfl : _ = 1)
    exact ⟨_, hcard, by rfl, halive.mpr (.inl (Finset.card_pos.mp (hcard ▸ Nat.one_pos)))⟩
  · have hsome : ([Win.HandleSet.Event.init (.timer 0), .unref (.timer 0),
        .closing (.timer 0)].foldlM Win.HandleSet.step Win.HandleSet.fresh).isSome = true := by rfl
    obtain ⟨-, hexact⟩ := activeHandles_count.2 _
      (.of_foldlM (.init ⟨rfl, rfl⟩) (Option.some_get hsome).symm)
    obtain ⟨hcount, halive⟩ := hexact (Nat.lt_of_le_of_lt (Nat.le_refl 1) (by decide))
    have hcard := (Nat.zero_add _).symm.trans (hcount.symm.trans (by rfl : _ = 1))
    exact ⟨_, hcard, by rfl, halive.mpr (.inr (.inl (Finset.card_pos.mp (hcard ▸ Nat.one_pos))))⟩

namespace Unix.HandleSet

/-- The first `n` timers are started and nothing else keeps the loop alive. -/
structure Started (n : ℕ) (s : HandleSet ℕ Unit) : Prop where
  reachable : Reachable Init Step s
  queue : s.handleQueue = (Finset.range n).image .timer
  counted : ∀ h ∈ s.handleQueue, (s.loop.flags h).counted = true
  idle : s.loop.activeReqs = 0 ∧ s.loop.closingHandles = []

theorem exists_started (n : ℕ) : ∃ s, Started n s := by
  induction n with
  | zero => exact ⟨fresh, .init init_fresh, rfl, fun h habs => absurd habs (by simp [fresh]), rfl,
      rfl⟩
  | succ n ih =>
    obtain ⟨s, hs⟩ := ih
    have hnew : Handle.timer n ∉ s.handleQueue := by
      rw [hs.queue]
      simp
    generalize hl : s.loop.setFlags (.timer n)
      { active := false, ref := true, closing := false, closed := false } = l
    have hflags : l.flags (.timer n) = ⟨false, true, false, false⟩ := by
      rw [← hl]
      simp
    have hinit : Step s (.init (.timer n))
        { s with loop := l, handleQueue := insert (.timer n) s.handleQueue } := by
      rw [← hl]
      exact if_neg hnew
    have hstart : Step { s with loop := l, handleQueue := insert (.timer n) s.handleQueue }
        (.start (.timer n)) { s with
          loop := uvHandleStart l (.timer n)
          handleQueue := insert (.timer n) s.handleQueue } :=
      if_pos (mem_insert_self ..)
    have honly : OnlyFlags (.timer n) l (uvHandleStart l (.timer n)) := uvHandleStart_only
    refine ⟨_, .step _ (.step _ hs.reachable hinit) hstart, ?_, ?_, ?_⟩
    · rw [hs.queue, range_add_one, image_insert]
    · intro h hmem
      by_cases hn : h = .timer n
      · rw [hn]
        simp [uvHandleStart, hflags, HandleFlags.counted]
      · rw [honly.flags h hn, ← hl, UvLoop.setFlags_flags, Function.update_of_ne hn]
        exact hs.counted h (mem_of_mem_insert_of_ne hmem hn)
    · obtain ⟨m, f, hrest⟩ := honly.rest
      rw [hrest, ← hl]
      exact hs.idle

/-- A loop with `2 ^ 32` active handles is not alive, and neither is one whose closing
handles `uv__run_closing_handles` has taken. -/
theorem activeHandles_limits :
    (∃ s : HandleSet ℕ Unit, Reachable Init Step s ∧ s.activeRefs.card = 2 ^ 32 ∧
      s.loop.activeHandles = 0 ∧ uvLoopAlive s.loop = false) ∧
    ∃ s : HandleSet ℕ Unit, Reachable Init Step s ∧ (∃ h ∈ s.handleQueue,
      (s.loop.flags h).closing = true ∧ (s.loop.flags h).closed = false) ∧
      uvLoopAlive s.loop = false := by
  constructor
  · obtain ⟨s, hs⟩ := exists_started (2 ^ 32)
    have hcard : s.activeRefs.card = 2 ^ 32 := by
      rw [activeRefs, Finset.filter_true_of_mem hs.counted, hs.queue,
        Finset.card_image_of_injective _ fun _ _ => Handle.timer.inj, Finset.card_range]
    have hzero : s.loop.activeHandles = 0 := by
      have htally := (counted_of_reachable hs.reachable).tally
      rw [Tally.Tallies] at htally
      rw [htally]
      change UInt32.ofNat s.activeRefs.card = 0
      rw [hcard]
      rfl
    refine ⟨s, hs.reachable, hcard, hzero, ?_⟩
    simp [uvLoopAlive, hzero, hs.idle]
  · have hsome : ([Event.init (.timer 0), .close (.timer 0) none, .makeClosePending (.timer 0),
        .runClosing].foldlM step fresh).isSome = true := by rfl
    exact ⟨_, .of_foldlM (.init init_fresh) (Option.some_get hsome).symm,
      ⟨.timer 0, Finset.mem_insert_self .., by rfl, by rfl⟩, by rfl⟩

end Unix.HandleSet

end LibuvWorks
