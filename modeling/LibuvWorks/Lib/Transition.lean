import Mathlib.Tactic.Common

/-!
# Runs of a labelled transition relation

`Reachable init step s` are the states that finitely many steps from an initial
state lead to. A property that holds initially and that every step keeps holds in
all of them.
-/
namespace Transition

open Option

variable {σ ε : Type*}

inductive Reachable (init : σ → Prop) (step : σ → ε → σ → Prop) : σ → Prop
  | init {s : σ} : init s → Reachable init step s
  | step {s t : σ} (e : ε) : Reachable init step s → step s e t → Reachable init step t

variable {init : σ → Prop} {step : σ → ε → σ → Prop} {P : σ → Prop} {s t : σ} {es : List ε}

theorem Reachable.invariant (h : Reachable init step s) (hinit : ∀ s, init s → P s)
    (hstep : ∀ s e t, Reachable init step s → P s → step s e t → P t) : P s := by
  induction h with
  | init hs => exact hinit _ hs
  | step e hs hst ih => exact hstep _ e _ hs ih hst

variable {step' : σ → ε → σ → Prop}

theorem Reachable.mono (h : Reachable init step s)
    (hstep : ∀ s e t, step s e t → step' s e t) : Reachable init step' s := by
  induction h with
  | init hs => exact .init hs
  | step e _ hst ih => exact .step e ih (hstep _ e _ hst)

/-- The runs from `s` to `t`, with their labels. -/
inductive Run (step : σ → ε → σ → Prop) : σ → List ε → σ → Prop
  | nil (s : σ) : Run step s [] s
  | cons {s t u : σ} {e : ε} {es : List ε} : step s e t → Run step t es u → Run step s (e :: es) u

theorem Run.mono (hrun : Run step s es t)
    (hstep : ∀ s e t, step s e t → step' s e t) : Run step' s es t := by
  induction hrun with
  | nil s => exact .nil s
  | cons hst _ ih => exact .cons (hstep _ _ _ hst) ih

theorem Run.invariant (hrun : Run step s es t) (hs : Reachable init step s)
    (hP : P s) (hstep : ∀ s e t, Reachable init step s → P s → step s e t → P t) :
    Reachable init step t ∧ P t := by
  induction hrun with
  | nil => exact ⟨hs, hP⟩
  | cons hst _ ih => exact ih (.step _ hs hst) (hstep _ _ _ hs hP hst)

/-- The runs of a machine whose step is a function of the state and an input. -/
def runInputs {α : Type*} (next : σ → ε → Except α σ) (s : σ) (es : List ε) : Except α σ :=
  es.foldlM next s

theorem Reachable.of_runInputs {α : Type*} {next : σ → ε → Except α σ} :
    ∀ {es : List ε} {s : σ}, Reachable init (fun s e t => next s e = .ok t) s →
      runInputs next s es = .ok t → Reachable init (fun s e t => next s e = .ok t) t
  | [], _, h, hrun => by
    cases hrun
    exact h
  | e :: es, s, h, hrun => by
    rw [runInputs, List.foldlM_cons] at hrun
    cases hnext : next s e with
    | error a =>
      rw [hnext] at hrun
      cases hrun
    | ok u =>
      rw [hnext] at hrun
      exact of_runInputs (.step e h hnext) hrun

theorem Reachable.of_foldlM {next : σ → ε → Option σ} :
    ∀ {es : List ε} {s : σ}, Reachable init (fun s e t => next s e = some t) s →
      es.foldlM next s = some t → Reachable init (fun s e t => next s e = some t) t
  | [], _, h, hrun => by
    cases hrun
    exact h
  | e :: es, s, h, hrun => by
    rw [List.foldlM_cons] at hrun
    obtain ⟨u, hnext, hrun⟩ := bind_eq_some_iff.mp hrun
    exact of_foldlM (.step e h hnext) hrun

theorem Run.of_foldlM {next : σ → ε → Option σ} : ∀ {es : List ε} {s : σ},
    es.foldlM next s = some t → Run (fun s e t => next s e = some t) s es t
  | [], _, hrun => by
    cases hrun
    exact .nil _
  | e :: es, s, hrun => by
    rw [List.foldlM_cons] at hrun
    obtain ⟨u, hnext, hrun⟩ := bind_eq_some_iff.mp hrun
    exact .cons hnext (of_foldlM hrun)

def Guarded (cond : σ → ε → Prop) (step : σ → ε → σ → Prop) (s : σ) (e : ε) (t : σ) : Prop :=
  cond s e ∧ step s e t

/-! ### Machines that say which events are enabled -/

section Enabled

variable {enabled cond : σ → ε → Prop} [∀ s e, Decidable (enabled s e)] {next : σ → ε → Option σ}

/-- If every enabled event that meets a condition is possible and keeps `P`, then `P` holds in the
runs that meet the condition. -/
theorem Reachable.invariant_of_guarded
    (h : Reachable init
      (Guarded cond fun s e t => (if enabled s e then next s e else none) = some t) s)
    (hinit : ∀ s, init s → P s)
    (hnext : ∀ s e, P s → enabled s e → cond s e → ∃ t, next s e = some t ∧ P t) : P s := by
  apply h.invariant hinit
  rintro s e t - hs ⟨hcond, hst⟩
  obtain ⟨henabled, ht⟩ := ite_none_right_eq_some.mp hst
  obtain ⟨u, hu, hP⟩ := hnext s e hs henabled hcond
  cases hu.symm.trans ht
  exact hP

theorem Reachable.invariant_of_next
    (h : Reachable init (fun s e t => (if enabled s e then next s e else none) = some t) s)
    (hinit : ∀ s, init s → P s)
    (hnext : ∀ s e, P s → enabled s e → ∃ t, next s e = some t ∧ P t) : P s := by
  have hguarded : Reachable init (Guarded (fun _ _ => True) fun s e t =>
      (if enabled s e then next s e else none) = some t) s := h.mono fun _ _ _ hst => ⟨trivial, hst⟩
  exact hguarded.invariant_of_guarded hinit fun s e hs henabled _ => hnext s e hs henabled

end Enabled

theorem Reachable.of_foldlM_if {next : σ → ε → Option σ} {cond : σ → ε → Prop}
    [∀ s e, Decidable (cond s e)] (h : Reachable init (fun s e t => cond s e ∧ next s e = some t) s)
    (hrun : es.foldlM (fun s e => if cond s e then next s e else none) s = some t) :
    Reachable init (fun s e t => cond s e ∧ next s e = some t) t := by
  have hiff : ∀ s e t, (if cond s e then next s e else none) = some t ↔
      cond s e ∧ next s e = some t := by
    intro s e t
    split <;> simp_all
  refine (Reachable.of_foldlM (h.mono ?_) hrun).mono ?_
  · exact fun s e t => (hiff s e t).mpr
  · exact fun s e t => (hiff s e t).mp

end Transition
