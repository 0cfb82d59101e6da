import Mathlib.Order.Interval.Finset.Nat

/-!
# Heap order on level-order numberings

A binary tree that is filled row by row from the left is a numbering `a` of its
entries by the positions `1, …, n`: the children of position `i` are the
positions `2 * i` and `2 * i + 1`, its parent is `i / 2`. The lemmas below are
the order part of every sift: which links are still in order after an exchange
with the parent or with the smaller child, and when the whole tree is in order.
The relation is any strict weak order.
-/
namespace LevelOrder

open Function Finset

variable {α : Type*} (lt : α → α → Prop)

def Ordered (n : ℕ) (a : ℕ → α) : Prop :=
  ∀ i, 2 ≤ i → i ≤ n → ¬ lt (a i) (a (i / 2))

/-- Only the links that touch position `p` may be out of order, and the children
of `p` are in order with its parent. -/
structure OrderedAround (n p : ℕ) (a : ℕ → α) : Prop where
  apart : ∀ i, 2 ≤ i → i ≤ n → i ≠ p → i / 2 ≠ p → ¬ lt (a i) (a (i / 2))
  grand : ∀ i, 2 ≤ p → i ≤ n → i / 2 = p → ¬ lt (a i) (a (p / 2))

/-- The entry at `p` is in order with its children. -/
def AboveChildren (n p : ℕ) (a : ℕ → α) : Prop :=
  ∀ i, i ≤ n → i / 2 = p → ¬ lt (a i) (a p)

def swapAt (a : ℕ → α) (p q : ℕ) : ℕ → α := a ∘ Equiv.swap p q

@[simp] theorem swapAt_left (a : ℕ → α) (p q : ℕ) : swapAt a p q p = a q := by
  simp [swapAt]

@[simp] theorem swapAt_right (a : ℕ → α) (p q : ℕ) : swapAt a p q q = a p := by
  simp [swapAt]

theorem swapAt_of_ne (a : ℕ → α) {p q i : ℕ} (hp : i ≠ p) (hq : i ≠ q) :
    swapAt a p q i = a i := by
  rw [swapAt, comp_apply, Equiv.swap_apply_of_ne_of_ne hp hq]

theorem image_swapAt [DecidableEq α] (a : ℕ → α) {n p q : ℕ} (hp : p ∈ Finset.Icc 1 n)
    (hq : q ∈ Finset.Icc 1 n) :
    (Finset.Icc 1 n).image (swapAt a p q) = (Finset.Icc 1 n).image a := by
  have hs : (Finset.Icc 1 n).image (Equiv.swap p q) = Finset.Icc 1 n := by
    apply eq_of_subset_of_card_le
    · intro i hi
      obtain ⟨j, hj, rfl⟩ := mem_image.mp hi
      rw [Equiv.swap_apply_def]
      split_ifs <;> assumption
    · rw [card_image_of_injective _ (Equiv.swap p q).injective]
  rw [swapAt, ← image_image, hs]

variable {lt} {n p : ℕ} {a : ℕ → α}

theorem Ordered.push (h : Ordered lt n a) (x : α) :
    OrderedAround lt (n + 1) (n + 1) (Function.update a (n + 1) x) where
  apart i hi hin hne _ := by
    rw [update_of_ne (by omega), update_of_ne (by omega)]
    exact h i hi (by omega)
  grand i _ hin hi := by omega

theorem OrderedAround.ordered (h : OrderedAround lt n p a) (hc : AboveChildren lt n p a)
    (hstop : 2 ≤ p → ¬ lt (a p) (a (p / 2))) : Ordered lt n a := by
  intro i hi hin
  by_cases hip : i = p
  · subst hip
    exact hstop hi
  · by_cases hpar : i / 2 = p
    · rw [hpar]
      exact hc i hin hpar
    · exact h.apart i hi hin hip hpar

/-- Exchanging an entry with its smallest child moves the open links one row down. -/
theorem OrderedAround.swap_down {c : ℕ} (h : OrderedAround lt n p a) (hp : 1 ≤ p)
    (hc : c / 2 = p) (hcn : c ≤ n)
    (hleast : ∀ i, i ≤ n → i / 2 = p → ¬ lt (a i) (a c)) :
    OrderedAround lt n c (swapAt a p c) where
  apart i hi hin hne hpar := by
    by_cases hip : i = p
    · subst hip
      rw [swapAt_left, swapAt_of_ne a (by omega) hpar]
      exact h.grand c hi hcn hc
    · rw [swapAt_of_ne a hip hne]
      by_cases hip2 : i / 2 = p
      · rw [hip2, swapAt_left]
        exact hleast i hin hip2
      · rw [swapAt_of_ne a hip2 hpar]
        exact h.apart i hi hin hip hip2
  grand i _ hin hi := by
    rw [hc, swapAt_left, swapAt_of_ne a (by omega) (by omega)]
    exact hi ▸ h.apart i (by omega) hin (by omega) (by omega)

variable [IsStrictWeakOrder α lt]

theorem not_lt_trans {x y z : α} (h : ¬ lt y x) (k : ¬ lt z y) : ¬ lt z x := by
  intro hzx
  have hyz : ¬ lt y z := fun hyz => h (trans_of lt hyz hzx)
  have hxy : ¬ lt x y := fun hxy => k (trans_of lt hzx hxy)
  exact (IsStrictWeakOrder.incomp_trans z y x ⟨k, hyz⟩ ⟨h, hxy⟩).1 hzx

theorem Ordered.root_least (h : Ordered lt n a) :
    ∀ i, 1 ≤ i → i ≤ n → ¬ lt (a i) (a 1) := by
  intro i
  induction i using Nat.strong_induction_on with
  | _ i ih =>
    intro hi hin
    rcases Nat.lt_or_ge i 2 with hlt | hge
    · obtain rfl : i = 1 := by omega
      exact irrefl (a 1)
    · exact not_lt_trans (ih (i / 2) (by omega) (by omega) (by omega)) (h i hge hin)

/-- Moving the last entry into position `p` leaves only the links of `p` open. -/
theorem Ordered.move_last (h : Ordered lt (n + 1) a) (hpn : p ≤ n) :
    OrderedAround lt n p (Function.update a p (a (n + 1))) where
  apart i hi hin hne hpar := by
    rw [update_of_ne hne, update_of_ne hpar]
    exact h i hi (by omega)
  grand i hp2 hin hi := by
    rw [update_of_ne (by omega), update_of_ne (by omega)]
    exact not_lt_trans (h p hp2 (by omega)) (hi ▸ h i (by omega) (by omega))

/-- Exchanging a small entry with its parent moves the open links one row up. -/
theorem OrderedAround.swap_up (h : OrderedAround lt n p a) (hp : 2 ≤ p) (hpn : p ≤ n)
    (hlt : lt (a p) (a (p / 2))) :
    OrderedAround lt n (p / 2) (swapAt a (p / 2) p) ∧
      AboveChildren lt n (p / 2) (swapAt a (p / 2) p) := by
  have hq : 2 ≤ p / 2 → ¬ lt (a (p / 2)) (a (p / 2 / 2)) := fun hq =>
    h.apart (p / 2) hq (by omega) (by omega) (by omega)
  have hsib : ∀ i, i ≤ n → i / 2 = p / 2 → i ≠ p → ¬ lt (a i) (a (p / 2)) := by
    intro i hin hi hne
    exact hi ▸ h.apart i (by omega) hin hne (by omega)
  refine ⟨⟨?_, ?_⟩, ?_⟩
  · intro i hi hin hne hpar
    have hip : i ≠ p := by rintro rfl; exact hpar rfl
    rw [swapAt_of_ne a hne hip]
    by_cases hip2 : i / 2 = p
    · rw [hip2, swapAt_right]
      exact h.grand i hp hin hip2
    · rw [swapAt_of_ne a hpar hip2]
      exact h.apart i hi hin hip hip2
  · intro i hq2 hin hi
    rw [swapAt_of_ne a (show p / 2 / 2 ≠ p / 2 by omega) (by omega)]
    by_cases hip : i = p
    · rw [hip, swapAt_right]
      exact hq hq2
    · rw [swapAt_of_ne a (by omega) hip]
      exact not_lt_trans (hq hq2) (hsib i hin hi hip)
  · intro i hin hi
    rw [swapAt_left]
    by_cases hip : i = p
    · rw [hip, swapAt_right]
      exact asymm hlt
    · rw [swapAt_of_ne a (by omega) hip]
      exact fun hbad => hsib i hin hi hip (trans_of lt hbad hlt)

end LevelOrder
