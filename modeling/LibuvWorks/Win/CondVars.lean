import LibuvWorks.Win.CondVar

/-!
# Signals and broadcasts of a condition variable

Every signal that is given while threads wait ends a wait, as long as the signal event never stands
for two of them, and no thread that comes late takes it. A broadcast ends all waits, as long as it
does not come between a thread that was the last to wait and its reset of the broadcast event.
-/
namespace LibuvWorks.Win

open List Option Function Nat
open Function (update)
open Mutex Threads Transition Waits

namespace CondPc

/-- The thread has `waiters_count_lock`. -/
def inSection : CondPc → Bool
  | .count1 | .leave1 | .count2 | .leave2 _ | .look _ | .leave3 _ _ => true
  | _ => false

def registered : CondPc → Bool
  | .leave1 | .unlockMutex | .wait | .enter2 | .count2 => true
  | _ => false

/-- The thread is counted as a waiter, and neither an event nor its timeout has ended its wait. -/
def waiting : CondPc → Bool
  | .leave1 | .unlockMutex | .wait => true
  | _ => false

/-- The thread is going to reset the broadcast event. -/
def resets : CondPc → Bool
  | .leave2 lastWaiter => lastWaiter
  | .reset => true
  | _ => false

theorem registered_of_waiting {pc : CondPc} (h : pc.waiting = true) : pc.registered = true := by
  cases pc <;> first | rfl | cases h

end CondPc

namespace CondThread

def InSection (x : CondThread) : Prop := x.pc.inSection = true

def registered (x : CondThread) : ℕ := x.pc.registered.toNat

/-- The thread waits, and did so when the signal `c` was given. -/
def waitsAt (c : ℕ) (x : CondThread) : ℕ :=
  if x.pc.waiting = true ∧ x.signalsBefore ≤ c then 1 else 0

end CondThread

namespace CondVar

variable {τ : Type*} [DecidableEq τ] [Fintype τ] {s t : CondVar τ} {i j : τ} {e : Event τ}

def Sure (s : CondVar τ) : Prop :=
  s.broadcastEvent = true ∧ ∀ j, (s.thread j).pc.resets = false

/-- How many threads waited when the signal `c` was given. -/
def waitersAt (s : CondVar τ) (c : ℕ) : ℕ :=
  during c s.ended + total s.thread (CondThread.waitsAt c)

/-- What the signal event will do for the signals below `c₁`. -/
def pending (s : CondVar τ) (c₁ : ℕ) : ℕ := if s.signalEvent = true ∧ s.setAt < c₁ then 1 else 0

/-- Some signals in a row, each given while at least as many threads waited, end as many waits. -/
def Accounted (s : CondVar τ) : Prop :=
  ∀ c₀ c₁, c₀ < c₁ → c₁ ≤ s.signals → (∀ c, c₀ ≤ c → c < c₁ → c₁ - c₀ ≤ s.waitersAt c) →
    c₁ ≤ c₀ + served c₀ c₁ s.ended + s.pending c₁

/-- What keeps signals and broadcasts apart from each other: the signal event is not set again while
two threads wait that did so at the signal before; a thread that began to wait after the signal
event was set does not take it while a thread waits that began before an earlier signal; and the
broadcast event is not set while a thread waits and another one is going to reset the event. -/
def Careful (s : CondVar τ) : Event τ → Prop
  | .turn i =>
    match (s.thread i).pc with
    | .setEvent false => s.signalEvent = true → ¬s.Sure → ∀ j k,
        (s.thread j).pc.waiting = true → (s.thread j).signalsBefore < s.signals →
        (s.thread k).pc.waiting = true → (s.thread k).signalsBefore < s.signals → j = k
    | .setEvent true =>
      (∀ j, (s.thread j).pc.resets = false) ∨ ∀ j, (s.thread j).pc.waiting = false
    | .wait => s.signalEvent = true → ¬s.Sure → s.setAt < (s.thread i).signalsBefore → ∀ j,
        (s.thread j).pc.waiting = true → (s.thread i).signalsBefore ≤ (s.thread j).signalsBefore
    | _ => True
  | _ => True

structure Sound (s : CondVar τ) : Prop where
  guards : Guards s.waitersCountLock fun j => (s.thread j).InSection
  count : s.waitersCount = total s.thread CondThread.registered
  before : ∀ j, (s.thread j).pc.waiting = true → (s.thread j).signalsBefore ≤ s.signals
  ended : ∀ w ∈ s.ended, w.2 ≤ s.signals
  unserved : s.signalEvent = true → s.setAt < s.signals ∧ ∀ w ∈ s.ended, w.2 ≤ s.setAt
  told : ∀ j, (s.thread j).pc.waiting = true →
    (s.thread j).broadcastsBefore < s.broadcasts → s.Sure
  accounted : ¬s.Sure → s.Accounted

/-! ### What the account depends on -/

omit [DecidableEq τ] in
theorem Accounted.mono (h : s.Accounted) (hsignals : t.signals = s.signals)
    (hat : ∀ c, c < s.signals → t.waitersAt c ≤ s.waitersAt c)
    (hserved : ∀ c₀ c₁, served c₀ c₁ s.ended + s.pending c₁ ≤
      served c₀ c₁ t.ended + t.pending c₁) : t.Accounted := by
  intro c₀ c₁ hlt hle hall
  rw [hsignals] at hle
  have hold : c₁ ≤ c₀ + served c₀ c₁ s.ended + s.pending c₁ := by
    apply h c₀ c₁ hlt hle
    intro c hlow hhigh
    exact (hall c hlow hhigh).trans (hat c (hhigh.trans_le hle))
  have hmore := hserved c₀ c₁
  omega

theorem waitsAt_update {x y : CondThread} (hi : s.thread i = y)
    (hwaiting : x.pc.waiting = y.pc.waiting) (hbefore : x.signalsBefore = y.signalsBefore)
    (c : ℕ) : total (update s.thread i x) (CondThread.waitsAt c) =
      total s.thread (CondThread.waitsAt c) := by
  subst hi
  have hsum := total_update s.thread (CondThread.waitsAt c) i x
  have hsame : CondThread.waitsAt c x = CondThread.waitsAt c (s.thread i) := by
    rw [CondThread.waitsAt, hwaiting, hbefore, CondThread.waitsAt]
  omega

omit [Fintype τ] in
theorem resets_update {x y : CondThread} (hi : s.thread i = y)
    (hresets : x.pc.resets = y.pc.resets) :
    (∀ j, (update s.thread i x j).pc.resets = false) ↔ ∀ j, (s.thread j).pc.resets = false := by
  subst hi
  apply forall_congr'
  intro j
  by_cases e : j = i
  · subst e
    rw [update_self, hresets]
  · rw [update_of_ne e]

omit [DecidableEq τ] in
theorem accounted_of_nobody (h : ∀ j, (s.thread j).pc.waiting = false) : s.Accounted := by
  intro c₀ c₁ hlt _ hall
  have hnone : total s.thread (CondThread.waitsAt c₀) = 0 := by
    refine total_eq_zero.mpr fun j => if_neg fun habs => ?_
    cases (h j).symm.trans habs.1
  have hfirst := hall c₀ le_rfl hlt
  rw [waitersAt, hnone] at hfirst
  have hserved : during c₀ s.ended ≤ served c₀ c₁ s.ended := during_le_served le_rfl hlt
  omega

omit [DecidableEq τ] in
theorem nobody_of_total {f : τ → CondThread} (h : total f CondThread.registered = 0) (j : τ) :
    (f j).pc.waiting = false := by
  have hzero := total_eq_zero.mp h j
  by_contra hset
  rw [CondThread.registered, CondPc.registered_of_waiting (eq_true_of_ne_false hset)] at hzero
  cases hzero

namespace Sound

variable {x y : CondThread} {waitersCount : ℕ} {lock mutex : Option τ}

theorem put (h : Sound s) (hi : s.thread i = y)
 {signalEvent broadcastEvent : Bool} {ended : List (ℕ × ℕ)}
    (hguards : Guards lock fun j => (update s.thread i x j).InSection)
    (hcount : waitersCount + y.registered = s.waitersCount + x.registered)
    (hbefore : x.pc.waiting = true → x.signalsBefore ≤ s.signals)
    (hended : ∀ w ∈ ended, w.2 ≤ s.signals)
    (hunserved : signalEvent = true → s.setAt < s.signals ∧ ∀ w ∈ ended, w.2 ≤ s.setAt)
    (htold : ∀ j, (update s.thread i x j).pc.waiting = true →
      (update s.thread i x j).broadcastsBefore < s.broadcasts →
        broadcastEvent = true ∧ ∀ j, (update s.thread i x j).pc.resets = false)
    (haccounted : ¬(broadcastEvent = true ∧ ∀ j, (update s.thread i x j).pc.resets = false) →
      Accounted ⟨waitersCount, lock, signalEvent, broadcastEvent, mutex, update s.thread i x,
        s.signals, s.broadcasts, s.setAt, ended⟩) :
    Sound ⟨waitersCount, lock, signalEvent, broadcastEvent, mutex, update s.thread i x,
      s.signals, s.broadcasts, s.setAt, ended⟩ := by
  subst hi
  constructor
  · exact hguards
  · have hsum := total_update s.thread CondThread.registered i x
    have hold := h.count
    change waitersCount = total (update s.thread i x) _
    omega
  · exact forall_update (P := fun _ (x : CondThread) =>
      x.pc.waiting = true → x.signalsBefore ≤ s.signals) h.before hbefore
  · exact hended
  · exact hunserved
  · exact htold
  · exact haccounted

theorem stay (h : Sound s) (hi : s.thread i = y) {signalEvent : Bool} {ended : List (ℕ × ℕ)}
    (hguards : Guards lock fun j => (update s.thread i x j).InSection)
    (hresets : x.pc.resets = y.pc.resets)
    (hcount : waitersCount + y.registered = s.waitersCount + x.registered)
    (hbefore : x.pc.waiting = true → x.signalsBefore ≤ s.signals)
    (hended : ∀ w ∈ ended, w.2 ≤ s.signals)
    (hunserved : signalEvent = true → s.setAt < s.signals ∧ ∀ w ∈ ended, w.2 ≤ s.setAt)
    (htold : x.pc.waiting = true → x.broadcastsBefore < s.broadcasts → s.Sure)
    (haccounted : ¬s.Sure → Accounted ⟨waitersCount, lock, signalEvent, s.broadcastEvent, mutex,
      update s.thread i x, s.signals, s.broadcasts, s.setAt, ended⟩) :
    Sound ⟨waitersCount, lock, signalEvent, s.broadcastEvent, mutex, update s.thread i x,
      s.signals, s.broadcasts, s.setAt, ended⟩ := by
  have hsure := resets_update hi hresets
  apply h.put hi hguards hcount hbefore hended hunserved
  · rw [hsure]
    exact forall_update (P := fun _ (x : CondThread) =>
      x.pc.waiting = true → x.broadcastsBefore < s.broadcasts → s.Sure) h.told htold
  · rw [hsure]
    exact haccounted

theorem guards_stay (h : Sound s) (hi : s.thread i = y)
    (hsection : x.pc.inSection = y.pc.inSection) :
    Guards s.waitersCountLock fun j => (update s.thread i x j).InSection := by
  apply guards_keep h.guards
  rw [hi]
  change x.pc.inSection = true ↔ y.pc.inSection = true
  rw [hsection]

omit [DecidableEq τ] in
theorem accounted_stay (h : Sound s) {f : τ → CondThread}
 {broadcastEvent : Bool} (hunsure : ¬s.Sure) (hat : ∀ c < s.signals,
      total f (CondThread.waitsAt c) ≤ total s.thread (CondThread.waitsAt c)) :
    Accounted ⟨waitersCount, lock, s.signalEvent, broadcastEvent, mutex, f, s.signals,
      s.broadcasts, s.setAt, s.ended⟩ :=
  (h.accounted hunsure).mono rfl (fun c hc => Nat.add_le_add_left (hat c hc) (during c s.ended))
    fun _ _ => le_rfl

theorem goOn (h : Sound s) (hi : s.thread i = y)
    (hguards : Guards lock fun j => (update s.thread i x j).InSection)
    (hregistered : x.pc.registered = y.pc.registered) (hwaiting : x.pc.waiting = y.pc.waiting)
    (hresets : x.pc.resets = y.pc.resets) (hsignals : x.signalsBefore = y.signalsBefore)
    (hbroadcasts : x.broadcastsBefore = y.broadcastsBefore) :
    Sound ⟨s.waitersCount, lock, s.signalEvent, s.broadcastEvent, mutex, update s.thread i x,
      s.signals, s.broadcasts, s.setAt, s.ended⟩ := by
  have hbefore := h.before i
  have htold := h.told i
  rw [hi] at hbefore htold
  apply h.stay hi hguards hresets
  · rw [CondThread.registered, CondThread.registered, hregistered]
  · rw [hsignals, hwaiting]
    exact hbefore
  · exact h.ended
  · exact h.unserved
  · rw [hwaiting, hbroadcasts]
    exact htold
  · exact fun hunsure => h.accounted_stay hunsure fun c _ =>
      (waitsAt_update hi hwaiting hsignals c).le

theorem register (h : Sound s) (hi : s.thread i = y) (hpc : y.pc = .count1) :
    Sound (s.register i) := by
  obtain ⟨pc, timed, result, returns, signalsBefore, broadcastsBefore⟩ := y
  cases hpc
  rw [CondVar.register, hi]
  dsimp only
  apply h.stay hi
  · exact h.guards_stay hi rfl
  · rfl
  · rfl
  · exact fun _ => le_rfl
  · exact h.ended
  · exact h.unserved
  · exact fun _ habs => absurd habs (Nat.lt_irrefl _)
  · refine fun hunsure => h.accounted_stay hunsure fun c hc => ?_
    have hsum := total_update s.thread (CondThread.waitsAt c) i
      ⟨.leave1, timed, result, returns, s.signals, s.broadcasts⟩
    have hnew : CondThread.waitsAt c
        ⟨.leave1, timed, result, returns, s.signals, s.broadcasts⟩ = 0 :=
      if_neg fun habs => absurd habs.2 hc.not_ge
    omega

omit [DecidableEq τ] in
theorem ended_concat (h : Sound s) (a : ℕ) :
    ∀ w ∈ s.ended ++ [(a, s.signals)], w.2 ≤ s.signals := by
  intro w hw
  rcases mem_append.mp hw with hw | hw
  · exact h.ended w hw
  · rw [mem_singleton.mp hw]

theorem waitersAt_wake (hi : s.thread i = y) (hpc : y.pc = .wait)
    (result : WaitResult) {c : ℕ} (hc : c < s.signals) :
    during c (s.ended ++ [(y.signalsBefore, s.signals)]) +
      total (update s.thread i { y with pc := .enter2, result }) (CondThread.waitsAt c) =
        s.waitersAt c := by
  have hsum := total_update s.thread (CondThread.waitsAt c) i { y with pc := .enter2, result }
  have hnew : CondThread.waitsAt c { y with pc := .enter2, result } = 0 := if_neg nofun
  have hold : CondThread.waitsAt c y =
      if y.signalsBefore ≤ c ∧ c < s.signals then 1 else 0 := by
    rw [CondThread.waitsAt, hpc]
    exact if_congr (by simp [CondPc.waiting, hc]) rfl rfl
  rw [hi, hnew, hold] at hsum
  rw [during_concat, waitersAt]
  omega

theorem wake (h : Sound s) (hi : s.thread i = y) (hpc : y.pc = .wait)
    (result : WaitResult) (hunset : s.signalEvent = false) : Sound (s.wake i result) := by
  obtain ⟨pc, timed, result', returns, signalsBefore, broadcastsBefore⟩ := y
  cases hpc
  rw [CondVar.wake, hi]
  apply h.stay hi
  · exact h.guards_stay hi rfl
  · rfl
  · rfl
  · exact nofun
  · exact h.ended_concat signalsBefore
  · intro habs
    cases hunset.symm.trans habs
  · exact nofun
  · intro hunsure
    apply Accounted.mono (h.accounted hunsure)
    · rfl
    · exact fun c hc => (waitersAt_wake hi rfl result hc).le
    · exact fun c₀ c₁ => Nat.add_le_add_right served_le_concat _

theorem take (h : Sound s) (hi : s.thread i = y) (hpc : y.pc = .wait) (hset : s.signalEvent = true)
    (hcareful : ¬s.Sure → s.setAt < y.signalsBefore → ∀ j, (s.thread j).pc.waiting = true →
      y.signalsBefore ≤ (s.thread j).signalsBefore) :
    Sound { s.wake i .signalEvent with signalEvent := false } := by
  obtain ⟨hfresh, hended⟩ := h.unserved hset
  obtain ⟨pc, timed, result, returns, signalsBefore, broadcastsBefore⟩ := y
  cases hpc
  rw [CondVar.wake, hi]
  dsimp only at hcareful ⊢
  apply h.stay hi
  · exact h.guards_stay hi rfl
  · rfl
  · rfl
  · exact nofun
  · exact h.ended_concat signalsBefore
  · exact nofun
  · exact nofun
  · intro hunsure c₀ c₁ hlt hle hall
    have hle : c₁ ≤ s.signals := hle
    have hat : ∀ c, c₀ ≤ c → c < c₁ → c₁ - c₀ ≤ s.waitersAt c := by
      intro c hlow hhigh
      rw [← waitersAt_wake hi rfl .signalEvent (hhigh.trans_le hle)]
      exact hall c hlow hhigh
    have haccount := h.accounted hunsure c₀ c₁ hlt hle hat
    change c₁ ≤ c₀ + served c₀ c₁ (s.ended ++ [(signalsBefore, s.signals)]) + 0
    rw [served_concat]
    rw [pending, hset] at haccount
    by_cases hpending : s.setAt < c₁
    · rw [if_pos ⟨rfl, hpending⟩] at haccount
      by_cases hserves : signalsBefore < c₁
      · rw [if_pos (by omega)]
        omega
      · -- Nobody who waits was there for the last of these signals, nor has a wait ended since.
        have hlate := hcareful hunsure (by omega)
        have hnobody : s.waitersAt (c₁ - 1) = 0 := by
          rw [waitersAt, during_eq_zero fun w hw => (hended w hw).trans (by omega),
            Nat.zero_add]
          refine total_eq_zero.mpr fun j => if_neg ?_
          rintro ⟨hwaiting, hbefore⟩
          have hj := hlate j hwaiting
          omega
        have hsome := hat (c₁ - 1) (by omega) (by omega)
        omega
    · rw [if_neg fun habs => hpending habs.2] at haccount
      omega

theorem deregister (h : Sound s) (hi : s.thread i = y) (hpc : y.pc = .count2) :
    Sound (s.deregister i) := by
  have hpos : 1 ≤ s.waitersCount := by
    rw [h.count]
    apply le_trans _ (le_total s.thread CondThread.registered i)
    rw [CondThread.registered, hi, hpc]
    exact le_rfl
  obtain ⟨pc, timed, result, returns, signalsBefore, broadcastsBefore⟩ := y
  cases hpc
  have hleft : ∀ last : Bool, (last = true → s.waitersCount - 1 = 0) →
      Sound ⟨s.waitersCount - 1, s.waitersCountLock, s.signalEvent, s.broadcastEvent, s.mutex,
        update s.thread i ⟨.leave2 last, timed, result, returns, signalsBefore, broadcastsBefore⟩,
        s.signals, s.broadcasts, s.setAt, s.ended⟩ := by
    intro last hlast
    have hcount : s.waitersCount - 1 + 1 = s.waitersCount + 0 := by omega
    cases last with
    | false =>
      apply h.stay hi
      · exact h.guards_stay hi rfl
      · rfl
      · exact hcount
      · exact nofun
      · exact h.ended
      · exact h.unserved
      · exact nofun
      · exact fun hunsure => h.accounted_stay hunsure fun c _ => (waitsAt_update hi (by rfl) (by rfl) c).le
    | true =>
      have hnobody : ∀ j, (update s.thread i ⟨.leave2 true, timed, result, returns, signalsBefore,
          broadcastsBefore⟩ j).pc.waiting = false := by
        apply nobody_of_total
        have hsum := total_update s.thread CondThread.registered i
          ⟨.leave2 true, timed, result, returns, signalsBefore, broadcastsBefore⟩
        have hall := h.count
        have hzero := hlast rfl
        rw [hi] at hsum
        change _ + 1 = _ + 0 at hsum
        omega
      apply h.put hi
      · exact h.guards_stay hi rfl
      · exact hcount
      · exact nofun
      · exact h.ended
      · exact h.unserved
      · intro j hj
        cases (hnobody j).symm.trans hj
      · exact fun _ => accounted_of_nobody hnobody
  have hdone := hleft (decide (result = .broadcastEvent ∧ s.waitersCount - 1 = 0))
    fun hlast => (of_decide_eq_true hlast).2
  simpa only [CondVar.deregister, goto, hi] using hdone

theorem reset (h : Sound s) (hi : s.thread i = y) (hpc : y.pc = .reset) :
    Sound { s.goto i .lockMutex with broadcastEvent := false } := by
  have hunsure : ¬s.Sure := by
    rintro ⟨-, hnone⟩
    have habs := hnone i
    rw [hi, hpc] at habs
    cases habs
  obtain ⟨pc, timed, result, returns, signalsBefore, broadcastsBefore⟩ := y
  cases hpc
  have hnever : ∀ j, (update s.thread i
      ⟨.lockMutex, timed, result, returns, signalsBefore, broadcastsBefore⟩ j).pc.waiting = true →
      (update s.thread i ⟨.lockMutex, timed, result, returns, signalsBefore, broadcastsBefore⟩
        j).broadcastsBefore < s.broadcasts → False :=
    forall_update (P := fun _ (x : CondThread) =>
      x.pc.waiting = true → x.broadcastsBefore < s.broadcasts → False)
      (fun j hj hlt => hunsure (h.told j hj hlt)) nofun
  rw [goto, hi]
  apply h.put hi
  · exact h.guards_stay hi rfl
  · rfl
  · exact nofun
  · exact h.ended
  · exact h.unserved
  · exact fun j hj hlt => (hnever j hj hlt).elim
  · exact fun _ => h.accounted_stay hunsure fun c _ => (waitsAt_update hi (by rfl) (by rfl) c).le

section

omit [DecidableEq τ]

theorem waitersAt_le_one (h : Sound s) (hset : s.signalEvent = true) (hfew : ∀ j k,
    (s.thread j).pc.waiting = true → (s.thread j).signalsBefore < s.signals →
    (s.thread k).pc.waiting = true → (s.thread k).signalsBefore < s.signals → j = k) :
    s.waitersAt (s.signals - 1) ≤ 1 := by
  obtain ⟨hfresh, hended⟩ := h.unserved hset
  rw [waitersAt, during_eq_zero fun w hw => (hended w hw).trans (by omega), Nat.zero_add]
  have hwaits : ∀ j, 0 < CondThread.waitsAt (s.signals - 1) (s.thread j) →
      (s.thread j).pc.waiting = true ∧ (s.thread j).signalsBefore < s.signals := by
    intro j hj
    by_cases hcase : (s.thread j).pc.waiting = true ∧ (s.thread j).signalsBefore ≤ s.signals - 1
    · exact ⟨hcase.1, by omega⟩
    · rw [CondThread.waitsAt, if_neg hcase] at hj
      cases hj
  apply total_le_one
  · intro x
    rw [CondThread.waitsAt]
    split
    · exact le_rfl
    · exact Nat.zero_le 1
  · intro j k hj hk
    exact hfew j k (hwaits j hj).1 (hwaits j hj).2 (hwaits k hk).1 (hwaits k hk).2

theorem signalled (h : Sound s)
    (hcareful : s.signalEvent = true → ¬s.Sure → ∀ j k,
      (s.thread j).pc.waiting = true → (s.thread j).signalsBefore < s.signals →
      (s.thread k).pc.waiting = true → (s.thread k).signalsBefore < s.signals → j = k) :
    Sound { s with
      signalEvent := true
      setAt := if s.signalEvent then s.setAt else s.signals
      signals := s.signals + 1 } := by
  constructor
  · exact h.guards
  · exact h.count
  · exact fun j hj => (h.before j hj).trans (le_succ _)
  · exact fun w hw => (h.ended w hw).trans (le_succ _)
  · intro _
    cases hset : s.signalEvent with
    | false => exact ⟨lt_succ_self _, h.ended⟩
    | true =>
      obtain ⟨hfresh, hended⟩ := h.unserved hset
      exact ⟨hfresh.trans (lt_succ_self _), hended⟩
  · exact h.told
  · intro hunsure c₀ c₁ hlt hle hall
    have hle : c₁ ≤ s.signals + 1 := hle
    have haccount := h.accounted hunsure c₀
    change c₁ ≤ c₀ + served c₀ c₁ s.ended +
      if true = true ∧ (if s.signalEvent then s.setAt else s.signals) < c₁ then 1 else 0
    rcases hle.lt_or_eq with hold | rfl
    · have hbefore := haccount c₁ hlt (Nat.lt_succ_iff.mp hold) hall
      cases hset : s.signalEvent with
      | false =>
        rw [pending, if_neg fun habs => by cases hset.symm.trans habs.1] at hbefore
        exact hbefore.trans (Nat.le_add_right _ _)
      | true =>
        rw [pending, hset] at hbefore
        exact hbefore
    · have hfresh : (if s.signalEvent then s.setAt else s.signals) < s.signals + 1 := by
        split
        · next hset => exact (h.unserved hset).1.trans (lt_succ_self _)
        · exact lt_succ_self _
      have hmono : served c₀ s.signals s.ended ≤ served c₀ (s.signals + 1) s.ended :=
        served_mono (le_succ _)
      rw [if_pos ⟨rfl, hfresh⟩]
      rcases Nat.lt_succ_iff_lt_or_eq.mp hlt with hbefore | rfl
      · cases hset : s.signalEvent with
        | false =>
          have hold := haccount s.signals hbefore le_rfl fun c hlow hhigh =>
            (Nat.sub_le_sub_right (le_succ _) _).trans (hall c hlow (lt_succ_of_lt hhigh))
          rw [pending, if_neg fun habs => by cases hset.symm.trans habs.1] at hold
          omega
        | true =>
          -- At most one thread waits that did so at the signal before.
          have hfew := h.waitersAt_le_one hset (hcareful hset hunsure)
          have hmany : s.signals + 1 - c₀ ≤ s.waitersAt (s.signals - 1) :=
            hall (s.signals - 1) (by omega) (by omega)
          omega
      · omega

theorem broadcasted (h : Sound s)
    (hcareful : (∀ j, (s.thread j).pc.resets = false) ∨ ∀ j, (s.thread j).pc.waiting = false) :
    Sound { s with broadcastEvent := true, broadcasts := s.broadcasts + 1 } := by
  exact { h with
    told := by
      intro j hj _
      rcases hcareful with hnone | hnobody
      · exact ⟨rfl, hnone⟩
      · cases (hnobody j).symm.trans hj
    accounted := by
      intro hunsure
      apply Accounted.mono (h.accounted fun hsure => hunsure ⟨rfl, hsure.2⟩)
      · rfl
      · exact fun c _ => le_rfl
      · exact fun c₀ c₁ => le_rfl }

end

/-! ### Every turn keeps the account. -/

theorem move (h : Sound s) (hi : s.thread i = y) (pc : CondPc)
 (hsection : pc.inSection = y.pc.inSection)
    (hregistered : pc.registered = y.pc.registered) (hwaiting : pc.waiting = y.pc.waiting)
    (hresets : pc.resets = y.pc.resets) : Sound { s.goto i pc with mutex } := by
  rw [goto, hi]
  exact h.goOn hi (h.guards_stay hi hsection) hregistered hwaiting hresets rfl rfl

theorem enter (h : Sound s) (hi : s.thread i = y) {pc : CondPc}
    (ht : s.enter i pc = some t) (hsection : pc.inSection = true)
    (hregistered : pc.registered = y.pc.registered) (hwaiting : pc.waiting = y.pc.waiting)
    (hresets : pc.resets = y.pc.resets) : Sound t := by
  obtain ⟨hfree, ht⟩ := ite_none_right_eq_some.mp ht
  cases ht
  have hguards := h.guards
  rw [hfree] at hguards
  rw [goto, hi]
  exact h.goOn hi (guards_take hguards hsection) hregistered hwaiting hresets rfl rfl

theorem leave (h : Sound s) (hi : s.thread i = y) (pc : CondPc)
    (hin : y.pc.inSection = true) (hout : pc.inSection = false)
    (hregistered : pc.registered = y.pc.registered) (hwaiting : pc.waiting = y.pc.waiting)
    (hresets : pc.resets = y.pc.resets) : Sound (s.leave i pc) := by
  have howner : s.waitersCountLock = some i := by
    apply (h.guards i).mpr
    change (s.thread i).pc.inSection = true
    rw [hi]
    exact hin
  have hguards : Guards none fun j => (update s.thread i { y with pc } j).InSection := by
    apply guards_release (howner ▸ h.guards)
    change ¬pc.inSection = true
    rw [hout]
    exact nofun
  rw [CondVar.leave, goto, hi]
  exact h.goOn hi hguards hregistered hwaiting hresets rfl rfl

theorem finish (h : Sound s) (hi : s.thread i = y) (hpc : y.pc = .lockMutex) :
    Sound (s.finish i) := by
  cases y
  cases hpc
  rw [CondVar.finish, hi]
  exact h.goOn hi (h.guards_stay hi rfl) rfl rfl rfl rfl rfl

theorem call (h : Sound s) (hi : s.thread i = y) (hpc : y.pc = .idle) (timed : Bool) :
    Sound { s with thread := update s.thread i { s.thread i with pc := .enter1, timed } } := by
  cases y
  cases hpc
  rw [hi]
  exact h.goOn hi (h.guards_stay hi rfl) rfl rfl rfl rfl rfl

theorem turn (h : Sound s) (hcareful : s.Careful (.turn i)) (ht : s.turn i = some t) :
    Sound t := by
  cases hi : s.thread i with
  | mk pc timed result returns signalsBefore broadcastsBefore =>
    rw [CondVar.turn, hi] at ht
    rw [Careful, hi] at hcareful
    cases pc with
    | idle => cases ht
    | enter1 => exact h.enter hi ht rfl rfl rfl rfl
    | count1 =>
      cases ht
      exact h.register hi rfl
    | leave1 =>
      cases ht
      exact h.leave hi .unlockMutex rfl rfl rfl rfl rfl
    | unlockMutex =>
      cases ht
      exact h.move hi .wait rfl rfl rfl rfl
    | wait =>
      cases hset : s.signalEvent with
      | true =>
        rw [waitForMultipleObjects, if_pos hset] at ht
        cases ht
        exact h.take hi rfl hset (hcareful hset)
      | false =>
        rw [waitForMultipleObjects, if_neg (by rw [hset]; decide)] at ht
        obtain ⟨-, ht⟩ := ite_none_right_eq_some.mp ht
        cases ht
        exact h.wake hi rfl .broadcastEvent hset
    | enter2 => exact h.enter hi ht rfl rfl rfl rfl
    | count2 =>
      cases ht
      exact h.deregister hi rfl
    | leave2 lastWaiter =>
      cases ht
      cases lastWaiter with
      | false => exact h.leave hi .lockMutex rfl rfl rfl rfl rfl
      | true => exact h.leave hi .reset rfl rfl rfl rfl rfl
    | reset =>
      cases ht
      exact h.reset hi rfl
    | lockMutex =>
      obtain ⟨-, ht⟩ := ite_none_right_eq_some.mp ht
      cases ht
      exact h.finish hi rfl
    | enter3 broadcast => exact h.enter hi ht rfl rfl rfl rfl
    | look broadcast =>
      cases ht
      exact h.move hi _ rfl rfl rfl rfl
    | leave3 broadcast haveWaiters =>
      cases ht
      cases haveWaiters with
      | false => exact h.leave hi .idle rfl rfl rfl rfl rfl
      | true => exact h.leave hi (.setEvent broadcast) rfl rfl rfl rfl rfl
    | setEvent broadcast =>
      cases ht
      cases broadcast with
      | false => exact (h.signalled hcareful).move hi .idle rfl rfl rfl rfl
      | true => exact (h.broadcasted hcareful).move hi .idle rfl rfl rfl rfl

end Sound

theorem Sound.init : Sound (uvCondFallbackInit τ) := by
  constructor
  · exact fun j => iff_of_false nofun nofun
  · exact (total_eq_zero.mpr fun _ => rfl).symm
  · exact fun j => nofun
  · exact fun w hw => absurd hw not_mem_nil
  · exact nofun
  · exact fun j => nofun
  · exact fun _ => accounted_of_nobody fun _ => rfl

theorem Sound.of_reachable (h : Reachable (· = uvCondFallbackInit τ) (Guarded Careful Step) s) :
    Sound s := by
  apply h.invariant
  · rintro _ rfl
    exact .init
  · rintro s e t - hs ⟨hcareful, hst⟩
    obtain ⟨henabled, ht⟩ := ite_none_right_eq_some.mp hst
    cases e with
    | lock i | unlock i =>
      cases ht
      exact { hs with }
    | wait i timed =>
      cases ht
      exact hs.call rfl henabled.1 timed
    | signal i =>
      cases ht
      exact hs.move rfl (.enter3 false) (by rw [henabled]; rfl) (by rw [henabled]; rfl)
        (by rw [henabled]; rfl) (by rw [henabled]; rfl)
    | broadcast i =>
      cases ht
      exact hs.move rfl (.enter3 true) (by rw [henabled]; rfl) (by rw [henabled]; rfl)
        (by rw [henabled]; rfl) (by rw [henabled]; rfl)
    | turn i => exact hs.turn hcareful ht
    | timeout i =>
      cases ht
      exact hs.wake rfl henabled.1 .timeout henabled.2.2.1

/-! ### Main result -/

/-- The count of the waiters is right, and zero only when nobody waits; who waited when the
broadcast event was set can return; and signals in a row, each given while at least as many threads
waited, end as many waits, but for one that the signal event is still set for. -/
structure Delivers (s : CondVar τ) : Prop where
  count : s.waitersCount = ∑ i, (s.thread i).pc.registered.toNat
  nobody : s.waitersCount = 0 → ∀ i, (s.thread i).pc.waiting = false
  broadcast : ∀ i, (s.thread i).pc.waiting = true →
    (s.thread i).broadcastsBefore < s.broadcasts → s.broadcastEvent = true
  signal : s.broadcastEvent = false → ∀ c k, c + k ≤ s.signals →
    (∀ c', c ≤ c' → c' < c + k → k ≤ s.waitersAt c') →
      k ≤ served c (c + k) s.ended + s.signalEvent.toNat

omit [DecidableEq τ] in
theorem Sound.delivers (h : Sound s) : Delivers s := by
  constructor
  · exact h.count
  · exact fun hzero => nobody_of_total (h.count.symm.trans hzero)
  · exact fun i hi hlt => (h.told i hi hlt).1
  · intro hunset c k hle hall
    rcases Nat.eq_zero_or_pos k with rfl | hpos
    · exact Nat.zero_le _
    have hunsure : ¬s.Sure := fun hsure => by cases hunset.symm.trans hsure.1
    have haccount := h.accounted hunsure c (c + k) (by omega) hle (by simpa using hall)
    have hpending : s.pending (c + k) ≤ s.signalEvent.toNat := by
      rw [pending]
      split
      · next hset => rw [hset.1]; exact le_rfl
      · exact Nat.zero_le _
    omega

/-- In the runs in which signals and broadcasts are kept apart, the condition variable loses none
of them. -/
theorem uvCondFallback_delivers
    (h : Reachable (· = uvCondFallbackInit τ) (Guarded Careful Step) s) : s.Delivers :=
  (Sound.of_reachable h).delivers

instance : Decidable s.Sure := inferInstanceAs (Decidable (_ ∧ _))

instance : DecidablePred s.Careful := fun e => by
  induction e using Event.casesOn <;> dsimp only [Careful]
  case turn => split <;> infer_instance
  all_goals infer_instance

def waitTurns (i : Fin 3) : List (Event (Fin 3)) :=
  [.lock i, .wait i false] ++ List.replicate 4 (.turn i)

def signalTurns : List (Event (Fin 3)) := .signal 2 :: List.replicate 4 (.turn 2)

def broadcastTurns : List (Event (Fin 3)) := .broadcast 2 :: List.replicate 4 (.turn 2)

def oneRun : Option (CondVar (Fin 3)) :=
  (waitTurns 0 ++ signalTurns ++ [Event.turn 0]).foldlM
    (fun s e => if s.Careful e then s.step e else none) (uvCondFallbackInit (Fin 3))

theorem oneRun_isSome : oneRun.isSome = true := by
  rfl

theorem uvCondFallback_delivers_one :
    1 ≤ served 0 1 (oneRun.get oneRun_isSome).ended +
      (oneRun.get oneRun_isSome).signalEvent.toNat := by
  have hrun : Reachable (· = uvCondFallbackInit (Fin 3)) (Guarded Careful Step)
      (oneRun.get oneRun_isSome) := .of_foldlM_if (.init rfl) (Option.some_get oneRun_isSome).symm
  exact (uvCondFallback_delivers hrun).signal (by decide) 0 1 (by decide)
    (by decide)

/-- Two signals come before the first of two waiters calls `WaitForMultipleObjects`, and only one of
the two returns. -/
def twoSignalsRun : Option (CondVar (Fin 3)) :=
  (waitTurns 0 ++ waitTurns 1 ++ signalTurns ++ signalTurns ++ [Event.turn 0]).foldlM step
    (uvCondFallbackInit (Fin 3))

theorem twoSignalsRun_isSome : twoSignalsRun.isSome = true := by
  rfl

/-- A thread that begins to wait after a signal takes it from the one that waited. -/
def lateWaiterRun : Option (CondVar (Fin 3)) :=
  (waitTurns 0 ++ signalTurns ++ waitTurns 1 ++ [Event.turn 1]).foldlM step
    (uvCondFallbackInit (Fin 3))

theorem lateWaiterRun_isSome : lateWaiterRun.isSome = true := by
  rfl

def lateResetRun : Option (CondVar (Fin 3)) :=
  (waitTurns 0 ++ broadcastTurns ++ List.replicate 4 (Event.turn 0) ++ waitTurns 1 ++
    broadcastTurns ++ [Event.turn 0]).foldlM step (uvCondFallbackInit (Fin 3))

theorem lateResetRun_isSome : lateResetRun.isSome = true := by
  rfl

/-- A run of three threads from the beginning, which loses a signal or a broadcast -/
def Loses (run : Option (CondVar (Fin 3))) : Prop :=
  ∃ s, run = some s ∧ Reachable (· = uvCondFallbackInit (Fin 3)) Step s ∧ ¬s.Delivers

theorem signal_lost : Loses twoSignalsRun ∧ Loses lateWaiterRun ∧ Loses lateResetRun := by
  have hlost : ¬(twoSignalsRun.get twoSignalsRun_isSome).Delivers := by
    intro h
    have htwo := h.signal (by decide) 0 2 (by decide) (by decide)
    exact absurd htwo (by decide)
  have htaken : ¬(lateWaiterRun.get lateWaiterRun_isSome).Delivers := by
    intro h
    have hone := h.signal (by decide) 0 1 (by decide) (by decide)
    exact absurd hone (by decide)
  have hreset : ¬(lateResetRun.get lateResetRun_isSome).Delivers := by
    intro h
    have hset := h.broadcast 1 (by decide) (by decide)
    exact absurd hset (by decide)
  refine ⟨?_, ?_, ?_⟩
  · exact ⟨_, (Option.some_get twoSignalsRun_isSome).symm,
      .of_foldlM (.init rfl) (Option.some_get twoSignalsRun_isSome).symm, hlost⟩
  · exact ⟨_, (Option.some_get lateWaiterRun_isSome).symm,
      .of_foldlM (.init rfl) (Option.some_get lateWaiterRun_isSome).symm, htaken⟩
  · exact ⟨_, (Option.some_get lateResetRun_isSome).symm,
      .of_foldlM (.init rfl) (Option.some_get lateResetRun_isSome).symm, hreset⟩

end CondVar

end LibuvWorks.Win
