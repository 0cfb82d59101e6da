import LibuvWorks.Lib.Ranking

/-!
# Mutexes and program points

A mutex is held by a thread just while the thread is in a critical section of it.
-/
open List Function

namespace Mutex

variable {τ : Type*} {owner : Option τ} {holds holds' : τ → Prop} {t t' : τ}

def Guards (owner : Option τ) (holds : τ → Prop) : Prop := ∀ t, owner = some t ↔ holds t

namespace Guards

theorem unique (h : Guards owner holds) (ht : holds t) (ht' : holds t') : t = t' :=
  Option.some.inj (((h t).mpr ht).symm.trans ((h t').mpr ht'))

/-- A turn of a thread in which it takes the free mutex, gives it back, or neither. -/
theorem move {owner' : Option τ} (h : Guards owner holds)
    (hself : (owner' = owner ∧ (holds' t ↔ holds t)) ∨ (owner = none ∧ owner' = some t ∧ holds' t) ∨
      (owner' = none ∧ holds t ∧ ¬ holds' t))
    (heq : ∀ t', t' ≠ t → (holds' t' ↔ holds t')) : Guards owner' holds' := by
  intro t'
  rcases hself with ⟨rfl, hin⟩ | ⟨rfl, rfl, hin⟩ | ⟨rfl, hin, hout⟩
  · by_cases e : t' = t
    · rw [h t', e, hin]
    · rw [h t', heq t' e]
  · by_cases e : t' = t
    · simp [e, hin]
    · have hout : ¬ holds t' := fun ht' => by simpa using (h t').mpr ht'
      simp [heq t' e, hout, Ne.symm e]
  · by_cases e : t' = t
    · simp [e, hout]
    · have hout' : ¬ holds t' := fun ht' => e (h.unique ht' hin)
      simp [heq t' e, hout']

end Guards

end Mutex

/-!
## Waits and signals

Signals are numbered. A wait is the number of signals before it began and the number of signals
before it ended: the signals from the first number on and below the second were given during it.
-/
namespace Waits

variable {w : ℕ × ℕ} {ws : List (ℕ × ℕ)} {a b c c₀ c₁ c₂ : ℕ}

/-- How many of the waits the signal `c` was given in -/
def during (c : ℕ) (ws : List (ℕ × ℕ)) : ℕ := ws.countP fun w => w.1 ≤ c ∧ c < w.2

/-- How many of the waits some signal from `c₀` on and below `c₁` was given in -/
def served (c₀ c₁ : ℕ) (ws : List (ℕ × ℕ)) : ℕ := ws.countP fun w => max w.1 c₀ < min w.2 c₁

theorem during_concat :
    during c (ws ++ [(a, b)]) = during c ws + if a ≤ c ∧ c < b then 1 else 0 := by
  simp [during, countP_append, countP_singleton]

theorem served_concat :
    served c₀ c₁ (ws ++ [(a, b)]) = served c₀ c₁ ws + if max a c₀ < min b c₁ then 1 else 0 := by
  simp [served, countP_append, countP_singleton]

theorem served_le_concat : served c₀ c₁ ws ≤ served c₀ c₁ (ws ++ [w]) := by
  rw [served, served, countP_append]
  exact Nat.le_add_right _ _

theorem served_mono (h : c₁ ≤ c₂) : served c₀ c₁ ws ≤ served c₀ c₂ ws := by
  apply countP_mono_left
  intro w _ hw
  simp only [decide_eq_true_eq] at hw ⊢
  omega

theorem during_le_served (hlow : c₀ ≤ c) (hhigh : c < c₁) : during c ws ≤ served c₀ c₁ ws := by
  apply countP_mono_left
  intro w _ hw
  simp only [decide_eq_true_eq] at hw ⊢
  omega

theorem during_eq_zero (h : ∀ w ∈ ws, w.2 ≤ c) : during c ws = 0 := by
  rw [during, countP_eq_zero]
  intro w hw habs
  have hle := h w hw
  simp only [decide_eq_true_eq] at habs
  omega

end Waits

/-!
## Threads with a local state

Each of finitely many threads has a local state, and a step changes that of one thread. Counters
that the threads share are sums over the local states; what only the owner of a mutex counts for is
the sum of one summand.
-/
namespace Threads

open Function (update)
open Mutex

variable {ι α : Type*} {f : ι → α} {g : α → ℕ} {i j : ι} {x : α} {owner : Option ι} {p : α → Prop}

section Update

variable [DecidableEq ι]

theorem forall_update_of_ne {P : ι → α → Prop} (h : ∀ j, j ≠ i → P j (f j)) (hx : P i x) :
    ∀ j, P j (update f i x j) := by
  intro j
  by_cases e : j = i
  · subst e
    rw [update_self]
    exact hx
  · rw [update_of_ne e]
    exact h j e

theorem forall_update {P : ι → α → Prop} (h : ∀ j, P j (f j)) (hx : P i x) :
    ∀ j, P j (update f i x j) :=
  forall_update_of_ne (fun j _ => h j) hx

theorem update_apply_of_ne (i : ι) (x : α) : ∀ j, j ≠ i → (p (update f i x j) ↔ p (f j)) := by
  intro j hj
  rw [update_of_ne hj]

/-! ### The critical sections of a mutex -/

theorem guards_take (h : Guards none fun j => p (f j)) (hx : p x) :
    Guards (some i) fun j => p (update f i x j) := by
  apply h.move _ (update_apply_of_ne i x)
  refine .inr (.inl ⟨rfl, rfl, ?_⟩)
  rw [update_self]
  exact hx

theorem guards_release (h : Guards (some i) fun j => p (f j)) (hx : ¬p x) :
    Guards none fun j => p (update f i x j) := by
  apply h.move _ (update_apply_of_ne i x)
  refine .inr (.inr ⟨rfl, (h i).mp rfl, ?_⟩)
  rw [update_self]
  exact hx

theorem guards_keep (h : Guards owner fun j => p (f j)) (hx : p x ↔ p (f i)) :
    Guards owner fun j => p (update f i x j) := by
  apply h.move _ (update_apply_of_ne i x)
  refine .inl ⟨rfl, ?_⟩
  rw [update_self]
  exact hx

end Update

/-! ### Sums over the threads -/

variable [Fintype ι]

def total (f : ι → α) (g : α → ℕ) : ℕ := ∑ i, g (f i)

theorem le_total (f : ι → α) (g : α → ℕ) (i : ι) : g (f i) ≤ total f g :=
  Finset.single_le_sum (f := fun j => g (f j)) (fun _ _ => Nat.zero_le _) (Finset.mem_univ i)

theorem total_eq_zero : total f g = 0 ↔ ∀ i, g (f i) = 0 := by
  simp [total, Finset.sum_eq_zero_iff]

theorem exists_of_total_pos (h : 0 < total f g) : ∃ i, 0 < g (f i) := by
  by_contra hnone
  have hzero : ∀ i, g (f i) = 0 := fun i => Nat.eq_zero_of_not_pos fun hpos => hnone ⟨i, hpos⟩
  exact h.ne' (total_eq_zero.mpr hzero)

theorem eq_one_of_total (hle : ∀ x, g x ≤ 1) (h : total f g = Fintype.card ι) (i : ι) :
    g (f i) = 1 := by
  have hones : Fintype.card ι = ∑ _i : ι, 1 := by simp
  rw [hones] at h
  exact (Finset.sum_eq_sum_iff_of_le fun j _ => hle (f j)).mp h i (Finset.mem_univ i)

theorem total_eq_card (h : ∀ i, g (f i) = 1) : total f g = Fintype.card ι := by
  simp [total, h]

theorem total_le_add {f' : ι → α} {b : ℕ} (h : ∀ i, g (f' i) ≤ g (f i) + b) :
    total f' g ≤ total f g + b * Fintype.card ι := by
  calc total f' g ≤ ∑ i, (g (f i) + b) := Finset.sum_le_sum fun i _ => h i
    _ = total f g + b * Fintype.card ι := by
      simp [total, Finset.sum_add_distrib, Nat.mul_comm]

theorem total_eq_single (h : ∀ j, j ≠ i → g (f j) = 0) : total f g = g (f i) :=
  Finset.sum_eq_single i (fun j _ hj => h j hj) fun habs => absurd (Finset.mem_univ i) habs

theorem total_le_one (hle : ∀ x, g x ≤ 1)
    (h : ∀ i j, 0 < g (f i) → 0 < g (f j) → i = j) : total f g ≤ 1 := by
  by_cases hsome : ∃ i, 0 < g (f i)
  · obtain ⟨i, hi⟩ := hsome
    have hsingle : total f g = g (f i) := by
      apply total_eq_single
      intro j hj
      by_contra hne
      exact hj (h j i (Nat.pos_of_ne_zero hne) hi)
    rw [hsingle]
    exact hle _
  · have hzero : total f g = 0 :=
      total_eq_zero.mpr fun i => Nat.eq_zero_of_not_pos fun hi => hsome ⟨i, hi⟩
    rw [hzero]
    exact Nat.zero_le 1

theorem total_of_owner (h : Guards (some i) fun j => p (f j)) (hg : ∀ x, ¬p x → g x = 0) :
    total f g = g (f i) := by
  apply total_eq_single
  intro j hj
  exact hg _ fun habs => hj (h.unique habs ((h i).mp rfl))

theorem total_of_free (h : Guards none fun j => p (f j)) (hg : ∀ x, ¬p x → g x = 0) :
    total f g = 0 :=
  total_eq_zero.mpr fun j => hg _ fun habs => by cases (h j).mpr habs

variable [DecidableEq ι]

theorem add_le_total (h : i ≠ j) : g (f i) + g (f j) ≤ total f g := by
  have hpair : ∑ k ∈ {i, j}, g (f k) = g (f i) + g (f j) := Finset.sum_pair h
  rw [← hpair]
  exact Finset.sum_le_sum_of_subset (Finset.subset_univ _)

theorem total_update (f : ι → α) (g : α → ℕ) (i : ι) (x : α) :
    total (update f i x) g + g (f i) = total f g + g x :=
  Ranking.sum_update_add g rfl rfl

end Threads
