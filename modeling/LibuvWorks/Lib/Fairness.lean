import LibuvWorks.Lib.Transition

/-!
# Fair executions

An execution never ends. It is fair to an event that does not stay enabled forever without
happening. `LeadsTo P Q` says that whenever `P` holds, `Q` holds then or later.
-/
namespace Transition

variable {σ ε : Type*} {init : σ → Prop} {step : σ → ε → σ → Prop}

structure Execution (step : σ → ε → σ → Prop) where
  state : ℕ → σ
  event : ℕ → ε
  next : ∀ n, step (state n) (event n) (state (n + 1))

namespace Execution

variable {x : Execution step} {P Q R : σ → Prop} {enabled : σ → Prop} {e : ε}

theorem reachable (x : Execution step) (h : Reachable init step (x.state 0)) (n : ℕ) :
    Reachable init step (x.state n) := by
  induction n with
  | zero => exact h
  | succ n ih => exact .step _ ih (x.next n)

def stay {s : σ} {e : ε} (h : step s e s) : Execution step := ⟨fun _ => s, fun _ => e, fun _ => h⟩

def Fair (x : Execution step) (enabled : σ → Prop) (e : ε) : Prop :=
  ∀ n, ∃ m, n ≤ m ∧ (x.event m = e ∨ ¬ enabled (x.state m))

theorem stay_fair {s : σ} {e' : ε} (h : step s e' s) (hdisabled : ¬ enabled s) :
    (stay h).Fair enabled e := fun n => ⟨n, Nat.le_refl n, .inr hdisabled⟩

def LeadsTo (x : Execution step) (P Q : σ → Prop) : Prop :=
  ∀ n, P (x.state n) → ∃ m, n ≤ m ∧ Q (x.state m)

theorem LeadsTo.refl : x.LeadsTo P P := fun n hP => ⟨n, Nat.le_refl n, hP⟩

theorem LeadsTo.trans (hPQ : x.LeadsTo P Q) (hQR : x.LeadsTo Q R) : x.LeadsTo P R := by
  intro n hP
  obtain ⟨m, hnm, hQ⟩ := hPQ n hP
  obtain ⟨k, hmk, hR⟩ := hQR m hQ
  exact ⟨k, Nat.le_trans hnm hmk, hR⟩

theorem LeadsTo.or (hP : x.LeadsTo P R) (hQ : x.LeadsTo Q R) :
    x.LeadsTo (fun s => P s ∨ Q s) R := by
  intro n hPQ
  exact hPQ.elim (hP n) (hQ n)

/-- While `P` holds the event is enabled; it leads from `P` to `Q`, and every other step keeps `P`
or leads to `Q`. -/
theorem Fair.leadsTo (hfair : x.Fair enabled e)
    (henabled : ∀ n, P (x.state n) → enabled (x.state n))
    (hevent : ∀ n, P (x.state n) → x.event n = e → Q (x.state (n + 1)))
    (hother : ∀ n, P (x.state n) → x.event n ≠ e → P (x.state (n + 1)) ∨ Q (x.state (n + 1))) :
    x.LeadsTo P Q := by
  intro n hP
  obtain ⟨m, hnm, hm⟩ := hfair n
  by_contra hnever
  have hkept : ∀ k, P (x.state (n + k)) := by
    intro k
    induction k with
    | zero => exact hP
    | succ k ih =>
      have hnot : ¬ Q (x.state (n + k + 1)) := fun hQ => hnever ⟨n + k + 1, by omega, hQ⟩
      by_cases he : x.event (n + k) = e
      · exact absurd (hevent _ ih he) hnot
      · exact (hother _ ih he).resolve_right hnot
  obtain ⟨k, rfl⟩ := Nat.exists_eq_add_of_le hnm
  have hlast := hm.resolve_right fun habs => habs (henabled _ (hkept k))
  exact hnever ⟨n + k + 1, by omega, hevent _ (hkept k) hlast⟩

/-- An event that lowers a rank, which no other event changes, ends at `Q` if it happens again and
again. -/
theorem Fair.leadsTo_of_rank {R : ℕ → σ → Prop} (hfair : x.Fair enabled e)
    (henabled : ∀ r n, R r (x.state n) → enabled (x.state n))
    (hevent : ∀ r n, R r (x.state n) → x.event n = e →
      (∃ r', r' < r ∧ R r' (x.state (n + 1))) ∨ Q (x.state (n + 1)))
    (hother : ∀ r n, R r (x.state n) → x.event n ≠ e →
      R r (x.state (n + 1)) ∨ Q (x.state (n + 1))) (r : ℕ) : x.LeadsTo (R r) Q := by
  induction r using Nat.strongRecOn with
  | ind r ih =>
    have hlower : x.LeadsTo (R r) fun s => (∃ r', r' < r ∧ R r' s) ∨ Q s := by
      apply hfair.leadsTo (henabled r) (hevent r)
      intro n hn hne
      exact (hother r n hn hne).imp_right Or.inr
    refine hlower.trans (LeadsTo.or ?_ .refl)
    rintro n ⟨r', hlt, hn⟩
    exact ih r' hlt n hn

end Execution

end Transition
