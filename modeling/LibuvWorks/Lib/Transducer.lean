import Mathlib.Tactic.Common

/-!
# Machines that write while they read

A step consumes a symbol, may fail, and writes a list. What a run writes does not depend on how its
input is divided, and a machine that keeps what it writes in buffers of its own writes the same.
-/
namespace Transducer

open List

universe u

variable {σ ο τ : Type u} {α ε : Type*}

/-- The last state and all that was written. -/
def run (step : σ → α → Except ε (σ × List ο)) : σ → List α → Except ε (σ × List ο)
  | s, [] => .ok (s, [])
  | s, c :: cs =>
    match step s c with
    | .error e => .error e
    | .ok (t, os) =>
      match run step t cs with
      | .error e => .error e
      | .ok (u, ps) => .ok (u, os ++ ps)

variable {step : σ → α → Except ε (σ × List ο)} {s t : σ} {c : α} {cs ds : List α} {os : List ο}
  {e : ε}

theorem run_cons_error (h : step s c = .error e) : run step s (c :: cs) = .error e := by
  rw [run, h]

theorem run_singleton : run step s [c] = step s c := by
  rw [run]
  cases step s c with
  | error e => rfl
  | ok r => simp only [run, append_nil]

/-- `impl` does the steps, with the state and all that was written so far in `state` and `out`;
`fits` is its own invariant. -/
structure Implements (step : σ → α → Except ε (σ × List ο)) (impl : τ → α → Except ε τ)
    (state : τ → σ) (out : τ → List ο) (fits : τ → Prop) : Prop where
  error : ∀ t c e, fits t → step (state t) c = .error e → impl t c = .error e
  done : ∀ t c s os, fits t → step (state t) c = .ok (s, os) →
    ∃ u, impl t c = .ok u ∧ fits u ∧ state u = s ∧ out u = out t ++ os

variable {impl : τ → α → Except ε τ} {state : τ → σ} {out : τ → List ο} {fits : τ → Prop}

theorem Implements.foldlM (h : Implements step impl state out fits) :
    Implements (run step) (fun t cs => cs.foldlM impl t) state out fits where
  error := by
    intro t cs
    induction cs generalizing t with
    | nil =>
      intro e _ hrun
      cases hrun
    | cons c cs ih =>
      intro e hfits hrun
      rw [foldlM_cons]
      cases hstep : step (state t) c with
      | error e' =>
        rw [run_cons_error hstep] at hrun
        cases hrun
        rw [h.error t c e hfits hstep]
        rfl
      | ok r =>
        obtain ⟨s, os⟩ := r
        obtain ⟨u, hu, hfits', hstate, -⟩ := h.done t c s os hfits hstep
        rw [hu]
        apply ih u e hfits'
        rw [hstate]
        rw [run, hstep] at hrun
        cases hrest : run step s cs with
        | error e' =>
          simp only [hrest] at hrun
          exact hrun
        | ok r => simp [hrest] at hrun
  done := by
    intro t cs
    induction cs generalizing t with
    | nil =>
      intro s os hfits hrun
      cases hrun
      exact ⟨t, rfl, hfits, rfl, (append_nil _).symm⟩
    | cons c cs ih =>
      intro s os hfits hrun
      rw [foldlM_cons]
      cases hstep : step (state t) c with
      | error e => simp [run_cons_error hstep] at hrun
      | ok r =>
        obtain ⟨s', os'⟩ := r
        obtain ⟨u, hu, hfits', hstate, hout⟩ := h.done t c s' os' hfits hstep
        rw [run, hstep] at hrun
        cases hrest : run step s' cs with
        | error e => simp [hrest] at hrun
        | ok r =>
          obtain ⟨s'', ps⟩ := r
          simp only [hrest, Except.ok.injEq, Prod.mk.injEq] at hrun
          obtain ⟨rfl, rfl⟩ := hrun
          rw [← hstate] at hrest
          obtain ⟨v, hv, hfits'', hstate', hout'⟩ := ih u s'' ps hfits' hrest
          rw [hu]
          exact ⟨v, hv, hfits'', hstate', by rw [hout', hout, append_assoc]⟩

theorem Implements.map_foldlM (h : Implements step impl state out fits) (t : τ) (ht : fits t)
    (cs : List α) :
    (cs.foldlM impl t).map (fun u => (state u, out u)) =
      (run step (state t) cs).map fun r => (r.1, out t ++ r.2) := by
  cases hrun : run step (state t) cs with
  | error e =>
    rw [h.foldlM.error t cs e ht hrun]
    rfl
  | ok r =>
    obtain ⟨s, os⟩ := r
    obtain ⟨u, hu, -, hstate, hout⟩ := h.foldlM.done t cs s os ht hrun
    rw [hu, Except.map, Except.map, hstate, hout]

theorem run_ok {P : σ → Prop} (hstep : ∀ s c, P s → ∃ t os, step s c = .ok (t, os) ∧ P t)
    (hs : P s) (cs : List α) : ∃ t os, run step s cs = .ok (t, os) ∧ P t := by
  induction cs generalizing s with
  | nil => exact ⟨s, [], rfl, hs⟩
  | cons c cs ih =>
    obtain ⟨t, os, ht, hP⟩ := hstep s c hs
    obtain ⟨u, ps, hu, hP'⟩ := ih hP
    exact ⟨u, os ++ ps, by simp only [run, ht, hu], hP'⟩

theorem run_append : run step s (cs ++ ds) =
    match run step s cs with
    | .error e => .error e
    | .ok (t, os) =>
      match run step t ds with
      | .error e => .error e
      | .ok (u, ps) => .ok (u, os ++ ps) := by
  induction cs generalizing s with
  | nil =>
    simp only [nil_append, run]
    cases run step s ds with
    | error e | ok r => simp
  | cons c cs ih =>
    rw [cons_append, run, run]
    cases hstep : step s c with
    | error e => rfl
    | ok r =>
      obtain ⟨t, os⟩ := r
      simp only [ih]
      cases hcs : run step t cs with
      | error e => rfl
      | ok r =>
        obtain ⟨u, ps⟩ := r
        simp only
        cases run step u ds with
        | error e => rfl
        | ok r => simp only [append_assoc]

theorem run_flatten (css : List (List α)) : run (run step) s css = run step s css.flatten := by
  induction css generalizing s with
  | nil => rfl
  | cons cs css ih =>
    rw [flatten_cons, run_append, run]
    cases run step s cs with
    | error e => rfl
    | ok r => simp only [ih]

end Transducer
