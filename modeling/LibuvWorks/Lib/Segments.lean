import Mathlib.Data.List.TakeDrop

/-!
# Cutting a list in segments

A code cuts its input in segments, such as the characters of an encoding. The symbols that can
follow the first one of a segment are known, and at the beginning of an input each of them is a
segment of its own. Then a list that is divided between segments has the same segments, and one that
is divided within a segment has more.
-/

/-- `next` is the length of the first segment of a list that is not empty; `follows` are the symbols
that are no beginning of a segment. -/
structure Segmentation (α : Type*) (follows : α → Prop) where
  next : List α → ℕ
  pos : ∀ xs : List α, xs ≠ [] → 0 < next xs
  le : ∀ xs : List α, next xs ≤ xs.length
  /-- What comes after a segment is not needed to find its end. -/
  take : ∀ (n : ℕ) (xs : List α), next xs ≤ n → next (xs.take n) = next xs
  tail : ∀ xs : List α, ∀ x ∈ (xs.take (next xs)).tail, follows x
  stray : ∀ (x : α) (xs : List α), follows x → next (x :: xs) = 1

namespace Segmentation

open List Nat
open List (cons_append cons_ne_nil flatMap_cons flatten_cons length_append length_cons length_drop)

variable {α : Type*} {follows : α → Prop} (S : Segmentation α follows)

def segments : List α → List (List α)
  | [] => []
  | x :: xs => (x :: xs).take (S.next (x :: xs)) :: segments ((x :: xs).drop (S.next (x :: xs)))
termination_by xs => xs.length
decreasing_by
  have hpos := S.pos (x :: xs) (cons_ne_nil x xs)
  rw [length_drop, length_cons]
  omega

inductive Boundary : List α → ℕ → Prop
  | zero (xs : List α) : Boundary xs 0
  | step {xs : List α} {n : ℕ} : Boundary (xs.drop (S.next xs)) n → Boundary xs (S.next xs + n)

variable {S} {xs ys : List α} {x : α} {n : ℕ} {xss : List (List α)}

@[simp] theorem segments_nil : S.segments [] = [] := by
  rw [segments]

theorem segments_of_ne_nil (hxs : xs ≠ []) :
    S.segments xs = xs.take (S.next xs) :: S.segments (xs.drop (S.next xs)) := by
  cases xs with
  | nil => exact absurd rfl hxs
  | cons x xs => rw [segments]

theorem segments_cons_of_follows (hx : follows x) :
    S.segments (x :: xs) = [x] :: S.segments xs := by
  rw [segments_of_ne_nil (cons_ne_nil x xs), S.stray x xs hx]
  rfl

theorem segments_of_follows (hxs : ∀ x ∈ xs, follows x) :
    (S.segments (xs ++ ys)).length = xs.length + (S.segments ys).length := by
  induction xs with
  | nil => simp
  | cons x xs ih =>
    rw [cons_append, segments_cons_of_follows (hxs x mem_cons_self), length_cons,
      ih fun y hy => hxs y (mem_cons_of_mem x hy), length_cons]
    omega

theorem Boundary.cases_pos (h : S.Boundary xs n) (hn : 0 < n) :
    S.next xs ≤ n ∧ S.Boundary (xs.drop (S.next xs)) (n - S.next xs) := by
  cases h with
  | zero => omega
  | step h =>
    refine ⟨Nat.le_add_right .., ?_⟩
    rwa [Nat.add_sub_cancel_left]

theorem boundary_iff (hn : S.next xs ≤ n) (hpos : 0 < n) :
    S.Boundary xs n ↔ S.Boundary (xs.drop (S.next xs)) (n - S.next xs) := by
  constructor
  · intro h
    exact (h.cases_pos hpos).2
  · intro h
    have hstep := Boundary.step h
    rwa [Nat.add_sub_cancel' hn] at hstep

theorem next_append (hlen : S.next (xs ++ ys) ≤ xs.length) : S.next xs = S.next (xs ++ ys) := by
  have htake := S.take xs.length (xs ++ ys) hlen
  rwa [take_left] at htake

theorem segments_append (h : S.Boundary (xs ++ ys) xs.length) :
    S.segments (xs ++ ys) = S.segments xs ++ S.segments ys := by
  induction hm : xs.length using Nat.strongRecOn generalizing xs with
  | ind m ih =>
    cases xs with
    | nil => simp
    | cons x xs =>
      obtain ⟨hle, hrest⟩ := h.cases_pos (succ_pos _)
      have hnext := next_append hle
      have hpos := S.pos (x :: xs) (cons_ne_nil x xs)
      rw [← hnext] at hle hrest
      rw [drop_append_of_le_length hle, ← length_drop] at hrest
      have htail := ih _ (by rw [length_drop]; omega) hrest rfl
      have hcons : x :: xs ++ ys ≠ [] := cons_ne_nil x (xs ++ ys)
      rw [segments_of_ne_nil hcons, ← hnext,
        take_append_of_le_length hle, drop_append_of_le_length hle, htail,
        segments_of_ne_nil (cons_ne_nil x xs), cons_append]

theorem segments_append_lt (h : ¬ S.Boundary (xs ++ ys) xs.length) :
    (S.segments (xs ++ ys)).length < (S.segments xs).length + (S.segments ys).length := by
  induction hm : xs.length using Nat.strongRecOn generalizing xs with
  | ind m ih =>
    cases xs with
    | nil => exact absurd (.zero _) h
    | cons x xs =>
      have hcons : x :: xs ++ ys ≠ [] := cons_ne_nil x (xs ++ ys)
      have hall := segments_of_ne_nil (S := S) hcons
      by_cases hle : S.next (x :: xs ++ ys) ≤ (x :: xs).length
      · -- the first segment is in the first part
        rw [boundary_iff hle (succ_pos _)] at h
        have hnext := next_append hle
        have hpos := S.pos (x :: xs) (cons_ne_nil x xs)
        rw [← hnext] at hle h hall
        rw [drop_append_of_le_length hle] at h hall
        rw [← length_drop] at h
        have htail := ih _ (by rw [length_drop]; omega) h rfl
        rw [hall, segments_of_ne_nil (cons_ne_nil x xs), length_cons, length_cons]
        omega
      · -- it is not: the rest of it comes first in the second part, and falls apart
        have hfirst : 0 < (S.segments (x :: xs)).length := by
          rw [segments_of_ne_nil (cons_ne_nil x xs)]
          exact succ_pos _
        obtain ⟨k, hk⟩ : ∃ k, S.next (x :: xs ++ ys) = (x :: xs).length + k ∧ 0 < k :=
          ⟨S.next (x :: xs ++ ys) - (x :: xs).length, by omega, by omega⟩
        have hlen := S.le (x :: xs ++ ys)
        rw [length_append] at hlen
        have hfollows : ∀ y ∈ ys.take k, follows y := by
          intro y hy
          apply S.tail (x :: xs ++ ys)
          rw [hk.1, take_length_add_append]
          exact mem_append_right _ hy
        have hrest : (S.segments (ys.take k ++ ys.drop k)).length = _ :=
          segments_of_follows hfollows
        rw [take_append_drop, length_take] at hrest
        rw [hall, hk.1, drop_length_add_append, length_cons]
        omega

def Whole (S : Segmentation α follows) (xss : List (List α)) : Prop :=
  ∀ ass bss, xss = ass ++ bss → S.Boundary xss.flatten ass.flatten.length

theorem whole_nil : S.Whole [] := by
  intro ass bss h
  obtain ⟨rfl, rfl⟩ := append_eq_nil_iff.mp h.symm
  exact .zero _

theorem boundary_append (h : S.Boundary (xs ++ ys) xs.length) :
    S.Boundary (xs ++ ys) (xs.length + n) ↔ S.Boundary ys n := by
  induction hm : xs.length using Nat.strongRecOn generalizing xs with
  | ind m ih =>
    cases xs with
    | nil =>
      subst hm
      simp
    | cons x xs =>
      obtain ⟨hle, hrest⟩ := h.cases_pos (succ_pos _)
      have hpos := S.pos (x :: xs ++ ys) (by simp)
      rw [drop_append_of_le_length hle, ← length_drop] at hrest
      have htail := ih _ (by rw [length_drop]; omega) hrest rfl
      rw [← hm, boundary_iff (by omega) (by omega), drop_append_of_le_length hle, ← htail,
        length_drop, Nat.sub_add_comm hle]

theorem whole_cons :
    S.Whole (xs :: xss) ↔ S.Boundary (xs ++ xss.flatten) xs.length ∧ S.Whole xss := by
  constructor
  · intro h
    have hfirst : S.Boundary (xs ++ xss.flatten) xs.length := by
      simpa using h [xs] xss rfl
    refine ⟨hfirst, fun ass bss hsplit => ?_⟩
    have hcut := h (xs :: ass) bss (by rw [hsplit, cons_append])
    rw [flatten_cons, flatten_cons, length_append] at hcut
    exact (boundary_append hfirst).mp hcut
  · rintro ⟨hfirst, hrest⟩ ass bss hsplit
    cases ass with
    | nil => exact .zero _
    | cons as ass =>
      obtain ⟨rfl, rfl⟩ := List.cons.inj hsplit
      rw [flatten_cons, flatten_cons, length_append]
      exact (boundary_append hfirst).mpr (hrest ass bss rfl)

theorem Whole.segments (h : S.Whole xss) : S.segments xss.flatten = xss.flatMap S.segments := by
  induction xss with
  | nil => simp
  | cons xs xss ih =>
    obtain ⟨hfirst, hrest⟩ := whole_cons.mp h
    rw [flatten_cons, segments_append hfirst, ih hrest, flatMap_cons]

theorem segments_flatten_le (xss : List (List α)) :
    (S.segments xss.flatten).length ≤ (xss.flatMap S.segments).length := by
  induction xss with
  | nil => simp
  | cons xs xss ih =>
    rw [flatten_cons, flatMap_cons, length_append]
    by_cases h : S.Boundary (xs ++ xss.flatten) xs.length
    · rw [segments_append h, length_append]
      omega
    · have hlt := segments_append_lt h
      omega

theorem segments_flatten_lt (h : ¬ S.Whole xss) :
    (S.segments xss.flatten).length < (xss.flatMap S.segments).length := by
  induction xss with
  | nil => exact absurd whole_nil h
  | cons xs xss ih =>
    rw [flatten_cons, flatMap_cons, length_append]
    by_cases hfirst : S.Boundary (xs ++ xss.flatten) xs.length
    · have hrest := ih fun habs => h (whole_cons.mpr ⟨hfirst, habs⟩)
      rw [segments_append hfirst, length_append]
      omega
    · have hlt := segments_append_lt hfirst
      have hle := segments_flatten_le (S := S) xss
      omega

end Segmentation
