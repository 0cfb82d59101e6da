import Mathlib.Data.List.Nodup

/-!
# Rounds of calls

A round calls back for the elements of a list, in order. Elements may be removed while it goes on,
and those that are removed before their turn are left out.
-/

variable {α : Type*} [DecidableEq α] {start gone calls due : List α} {x : α}

/-- A round that began with `start` has made the `calls`, and those that are `due` are left; the
elements `gone` were removed before their turn. -/
structure Round (start gone calls due : List α) : Prop where
  nodup : start.Nodup
  split : calls ++ due = start.filter (· ∉ gone)

namespace Round

open List

theorem begin (hnd : start.Nodup) : Round start [] [] start where
  nodup := hnd
  split := (filter_eq_self.mpr fun _ _ => decide_eq_true not_mem_nil).symm

theorem call (h : Round start gone calls (x :: due)) : Round start gone (calls ++ [x]) due where
  nodup := h.nodup
  split := by
    rw [append_assoc]
    exact h.split

theorem done (h : Round start gone calls []) : calls = start.filter (· ∉ gone) := by
  rw [← h.split, append_nil]

theorem drop_called (h : Round start gone calls due) (hx : x ∈ calls) :
    Round start gone calls (due.filter (· ≠ x)) where
  nodup := h.nodup
  split := by
    have hnd : (start.filter (· ∉ gone)).Nodup := h.nodup.filter _
    rw [← h.split, nodup_append] at hnd
    rw [← h.split]
    congr 1
    apply filter_eq_self.mpr
    intro y hy
    rw [decide_eq_true_iff]
    rintro rfl
    exact hnd.2.2 y hx y hy rfl

theorem drop (h : Round start gone calls due) (hx : x ∉ calls) :
    Round start (x :: gone) calls (due.filter (· ≠ x)) where
  nodup := h.nodup
  split := by
    have hkept : calls.filter (· ≠ x) = calls := by
      apply filter_eq_self.mpr
      intro y hy
      rw [decide_eq_true_iff]
      rintro rfl
      exact hx hy
    calc calls ++ due.filter (· ≠ x)
        = (calls ++ due).filter (· ≠ x) := by rw [filter_append, hkept]
      _ = (start.filter (· ∉ gone)).filter (· ≠ x) := by rw [h.split]
      _ = start.filter (· ∉ x :: gone) := by
          rw [filter_filter]
          apply filter_congr
          intro y _
          simp only [mem_cons, not_or, Bool.decide_and, ne_eq]

end Round
