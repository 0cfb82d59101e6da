import Mathlib.Data.List.Basic

/-!
# A prefix of each list

Lists are consumed one after the other, each from its front, so that what has been consumed is
the concatenation of one prefix of each.
-/
namespace Prefixes

open List Nat
open Function (update update_self update_of_ne)

variable {α : Type*} {k : ℕ → ℕ} {xs : List (List α)}

/-- The first `k i` elements of the list `i`, one list after the other. -/
def prefixes (k : ℕ → ℕ) (xs : List (List α)) : List α :=
  (xs.mapIdx fun i x => x.take (k i)).flatten

@[simp] theorem prefixes_nil : prefixes k ([] : List (List α)) = [] := rfl

@[simp] theorem prefixes_cons {x : List α} :
    prefixes k (x :: xs) = x.take (k 0) ++ prefixes (fun i => k (i + 1)) xs := by
  simp [prefixes, List.mapIdx_cons]

theorem prefixes_eq_nil (h : ∀ i, k i = 0) : prefixes k xs = [] := by
  induction xs generalizing k with
  | nil => rfl
  | cons x xs ih =>
    rw [prefixes_cons, h 0, ih fun i => h (i + 1), take_zero, append_nil]

theorem prefixes_concat {x : List α} (h : k xs.length = 0) :
    prefixes k (xs ++ [x]) = prefixes k xs := by
  induction xs generalizing k with
  | nil =>
    have hzero : k 0 = 0 := h
    simp [hzero]
  | cons y ys ih =>
    rw [cons_append, prefixes_cons, prefixes_cons, ih]
    exact h

theorem prefixes_advance {i n : ℕ} (hi : i < xs.length) (hlater : ∀ j, i < j → k j = 0) :
    prefixes (update k i (k i + n)) xs = prefixes k xs ++ ((xs.getD i []).drop (k i)).take n := by
  induction xs generalizing k i with
  | nil => simp at hi
  | cons x xs ih =>
    rw [prefixes_cons, prefixes_cons]
    cases i with
    | zero =>
      have htail : (fun j => update k 0 (k 0 + n) (j + 1)) = fun j => k (j + 1) := by
        ext j
        exact update_of_ne (succ_ne_zero j) _ _
      have hnil : prefixes (fun j => k (j + 1)) xs = [] :=
        prefixes_eq_nil fun j => hlater (j + 1) j.succ_pos
      rw [htail, hnil, update_self, append_nil, append_nil, getD_cons_zero,
        take_add]
    | succ i =>
      have htail : (fun j => update k (i + 1) (k (i + 1) + n) (j + 1)) =
          update (fun j => k (j + 1)) i (k (i + 1) + n) := by
        ext j
        by_cases hj : j = i
        · rw [hj, update_self, update_self]
        · rw [update_of_ne hj, update_of_ne (by omega)]
      have hhead : update k (i + 1) (k (i + 1) + n) 0 = k 0 :=
        update_of_ne (succ_ne_zero i).symm _ _
      rw [htail, hhead, append_assoc]
      apply congrArg (List.take (k 0) x ++ ·)
      exact ih (lt_of_succ_lt_succ hi) fun j hj => hlater (j + 1) (succ_lt_succ hj)

end Prefixes
