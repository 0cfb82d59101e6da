import Mathlib.Tactic.Common

/-!
# Singly linked stacks

A stack is known by its first node, and every node by a link to the next one. `Leads next p xs`
says that the links lead from `p` through the nodes of `xs` and end there.
-/
namespace LinkedStack

variable {α : Type*} {next next' : α → Option α} {p : Option α} {x : α} {xs ys : List α}

/-- The links lead from `p` through `xs`. -/
inductive Leads (next : α → Option α) : Option α → List α → Prop
  | nil : Leads next none []
  | cons {x : α} {xs : List α} : Leads next (next x) xs → Leads next (some x) (x :: xs)

theorem leads_none : Leads next none xs ↔ xs = [] := by
  constructor
  · rintro ⟨⟩
    rfl
  · rintro rfl
    exact .nil

theorem leads_some : Leads next (some x) xs ↔ ∃ ys, xs = x :: ys ∧ Leads next (next x) ys := by
  constructor
  · rintro ⟨⟩
    exact ⟨_, rfl, ‹_›⟩
  · rintro ⟨ys, rfl, h⟩
    exact .cons h

theorem Leads.congr (h : Leads next p xs) (hsame : ∀ x ∈ xs, next' x = next x) :
    Leads next' p xs := by
  induction h with
  | nil => exact .nil
  | @cons x xs _ ih =>
    have hx := hsame x List.mem_cons_self
    have hxs := ih fun y hy => hsame y (List.mem_cons_of_mem x hy)
    exact .cons (hx ▸ hxs)

variable [DecidableEq α]

theorem Leads.update (h : Leads next p xs) (hx : x ∉ xs) (q : Option α) :
    Leads (Function.update next x q) p xs := by
  apply h.congr
  intro y hy
  exact Function.update_of_ne (ne_of_mem_of_not_mem hy hx) ..

theorem Leads.push (h : Leads next p xs) (hx : x ∉ xs) :
    Leads (Function.update next x p) (some x) (x :: xs) := by
  refine .cons ?_
  rw [Function.update_self]
  exact h.update hx p

end LinkedStack
