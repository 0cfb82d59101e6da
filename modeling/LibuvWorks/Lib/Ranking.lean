import LibuvWorks.Lib.Transition
import Mathlib.Algebra.GroupWithZero.Nat
import Mathlib.Algebra.Order.BigOperators.Group.Finset

/-!
# Rankings

A rank that every step lowers, up to what the label of the step pays for, bounds the length of every
run, and a run that has to go on without the labels that pay gets stuck. The rank of a system of
threads is a sum over the threads, of which a step changes few.
-/
namespace Ranking

open Transition List

variable {σ ε : Type*} {init : σ → Prop} {step : σ → ε → σ → Prop} {P : σ → Prop} {s t : σ}

theorem length_le {es : List ε} (rank : σ → ℕ) (cost : ε → ℕ) (hrun : Run step s es t)
    (hs : Reachable init step s) (hP : P s)
    (hstep : ∀ s e t, Reachable init step s → P s → step s e t →
      P t ∧ rank t + 1 ≤ rank s + cost e) :
    es.length ≤ rank s + (es.map cost).sum := by
  induction hrun with
  | nil => exact Nat.zero_le _
  | @cons s t u e es hst _ ih =>
    obtain ⟨hPt, hrank⟩ := hstep s e t hs hP hst
    have hle := ih (.step e hs hst) hPt
    simp only [length_cons, map_cons, sum_cons]
    omega

theorem countP_range_succ (free : ε → Bool) (events : ℕ → ε) (k : ℕ) :
    ((List.range (k + 1)).map events).countP free =
      ((List.range k).map events).countP free + if free (events k) then 1 else 0 := by
  rw [range_succ, map_append, countP_append, map_singleton,
    countP_singleton]

theorem countP_range_add_le (free : ε → Bool) (events : ℕ → ε) (k d : ℕ) :
    ((List.range (k + d)).map events).countP free ≤
      ((List.range k).map events).countP free + d := by
  induction d with
  | zero => exact Nat.le_refl _
  | succ d ih =>
    rw [← Nat.add_assoc, countP_range_succ]
    split <;> omega

/-- A run in which all events but the free ones are bounded in number gets stuck, if events that are
not free come again and again. -/
theorem exists_stuck {next : σ → ε → Option σ} {free : ε → Bool} {bound : ℕ}
    (hlength : ∀ (es : List ε) (t : σ), es.foldlM next s = some t →
      es.length ≤ bound + es.countP free)
    (events : ℕ → ε) (hfair : ∀ i, ∃ j, i ≤ j ∧ free (events j) = false) :
    ∃ k t, ((List.range k).map events).foldlM next s = some t ∧ next t (events k) = none := by
  by_contra hnever
  have hruns : ∀ k, ∃ t, ((range k).map events).foldlM next s = some t := by
    intro k
    induction k with
    | zero => exact ⟨s, rfl⟩
    | succ k ih =>
      obtain ⟨t, ht⟩ := ih
      obtain ⟨u, hu⟩ := Option.ne_none_iff_exists'.mp fun habs => hnever ⟨k, t, ht, habs⟩
      refine ⟨u, ?_⟩
      rw [range_succ, map_append, foldlM_append, ht]
      exact congrArg (· >>= pure) hu
  have hcount : ∀ m, ∃ k, m + ((range k).map events).countP free ≤ k := by
    intro m
    induction m with
    | zero => exact ⟨0, Nat.le_refl 0⟩
    | succ m ih =>
      obtain ⟨k, hk⟩ := ih
      obtain ⟨j, hkj, hj⟩ := hfair k
      obtain ⟨d, rfl⟩ := Nat.exists_eq_add_of_le hkj
      refine ⟨k + d + 1, ?_⟩
      have hmore := countP_range_add_le free events k d
      rw [countP_range_succ, hj, if_neg Bool.false_ne_true]
      omega
  obtain ⟨k, hk⟩ := hcount (bound + 1)
  obtain ⟨t, ht⟩ := hruns k
  have hle := hlength _ t ht
  rw [length_map, length_range] at hle
  omega

section Sums

variable {ι : Type*} [Fintype ι] [DecidableEq ι]

theorem sum_add_of_eq_off {f g : ι → ℕ} (i : ι) (h : ∀ j, j ≠ i → f j = g j) :
    (∑ j, f j) + g i = (∑ j, g j) + f i := by
  have hrest : ∑ j ∈ Finset.univ.erase i, f j = ∑ j ∈ Finset.univ.erase i, g j :=
    Finset.sum_congr rfl fun j hj => h j (Finset.ne_of_mem_erase hj)
  rw [← Finset.add_sum_erase Finset.univ f (Finset.mem_univ i),
    ← Finset.add_sum_erase Finset.univ g (Finset.mem_univ i), hrest]
  omega

theorem sum_update_add {α : Type*} (g : α → ℕ) {f : ι → α} {i : ι} {x : α} {a b : ℕ}
    (ha : g (f i) = a) (hb : g x = b) :
    (∑ j, g (Function.update f i x j)) + a = (∑ j, g (f j)) + b := by
  have h := sum_add_of_eq_off (f := fun j => g (Function.update f i x j)) (g := fun j => g (f j)) i
    fun j hj => by rw [Function.update_of_ne hj]
  simpa [ha, hb] using h

end Sums

end Ranking
