import LibuvWorks.Lib.LinkedStack
import Mathlib.Data.List.Chain
import Mathlib.Data.List.Nodup

/-!
# Circular singly linked queues

A queue is known by its last node, whose link leads to the first one. Nodes are appended behind
the last one and taken from the front, or all of them are detached and walked from the first one
until a link leads to it again.
-/

structure TailQueue (α : Type*) where
  next : α → Option α
  tail : Option α

namespace TailQueue

open List
open Function (update update_of_ne update_self)

variable {α : Type*} [DecidableEq α] {q q' : TailQueue α} {xs zs : List α} {r t x : α}

/-- A node is appended. -/
def insert (q : TailQueue α) (r : α) : TailQueue α :=
  match q.tail with
  | some t =>
    { next := update (update q.next r (q.next t)) t (some r), tail := some r }
  | none => { next := update q.next r (some r), tail := some r }

/-- The first node is taken, if there is one; there is no result if a null link is followed. -/
def remove (q : TailQueue α) : Option (TailQueue α × Option α) :=
  match q.tail with
  | none => some (q, none)
  | some t =>
    (q.next t).map fun r =>
      (if r = t then { q with tail := none }
        else { q with next := update q.next t (q.next r) }, some r)

def Linked (q : TailQueue α) (xs : List α) : Prop := xs.IsChain fun a b => q.next a = some b

/-- The queue has the members `xs`, the first one first. -/
structure Holds (q : TailQueue α) (xs : List α) : Prop where
  nodup : xs.Nodup
  tail : q.tail = xs.getLast?
  linked : ∀ t, q.tail = some t → q.Linked (t :: xs)

section

omit [DecidableEq α]

theorem Linked.congr (h : q.Linked (xs ++ [t])) (hsame : ∀ a ∈ xs, q'.next a = q.next a) :
    q'.Linked (xs ++ [t]) := by
  obtain ⟨hxs, -, hlast⟩ := isChain_append.mp h
  refine isChain_append.mpr ⟨?_, isChain_singleton t, ?_⟩
  · apply hxs.imp_of_mem_imp
    intro a b ha _ hab
    rw [hsame a ha, hab]
  · intro a ha b hb
    rw [hsame a (List.mem_of_getLast? ha)]
    exact hlast a ha b hb

theorem Holds.nil (h : q.tail = none) : Holds q [] :=
  ⟨nodup_nil, h, fun t ht => by cases h.symm.trans ht⟩

theorem Holds.congr (h : Holds q xs) (htail : q'.tail = q.tail)
    (hsame : ∀ a ∈ xs, q'.next a = q.next a) : Holds q' xs := by
  refine ⟨h.nodup, htail.trans h.tail, fun t ht => ?_⟩
  have ht' := htail.symm.trans ht
  apply (h.linked t ht').imp_of_mem_imp
  intro a b ha _ hab
  rcases mem_cons.mp ha with rfl | ha
  · rw [hsame a (List.mem_of_getLast? (h.tail.symm.trans ht')), hab]
  · rw [hsame a ha, hab]

end

theorem Holds.insert (h : Holds q xs) (hr : r ∉ xs) : Holds (q.insert r) (xs ++ [r]) := by
  have hnodup : (xs ++ [r]).Nodup := by
    rw [nodup_append]
    exact ⟨h.nodup, nodup_singleton r, by grind⟩
  rw [TailQueue.insert]
  cases htail : q.tail with
  | none =>
    have hnil : xs = [] := List.getLast?_eq_none_iff.mp (h.tail.symm.trans htail)
    subst hnil
    refine ⟨hnodup, rfl, ?_⟩
    rintro t ⟨⟩
    simp [Linked]
  | some t =>
    obtain ⟨zs, rfl⟩ := List.getLast?_eq_some_iff.mp (h.tail.symm.trans htail)
    have hlinked := h.linked t htail
    have hrt : r ≠ t := by
      rintro rfl
      simp at hr
    refine ⟨hnodup, by simp, ?_⟩
    rintro u ⟨⟩
    have hfirst : (zs ++ [t]).head? = q.next t := by
      cases zs with
      | nil | cons y zs => exact (isChain_cons_cons.mp hlinked).1.symm
    have hrest : q.Linked (zs ++ [t]) := hlinked.tail
    refine isChain_cons.mpr ⟨?_, isChain_append.mpr ⟨?_, isChain_singleton r, ?_⟩⟩
    · intro y hy
      dsimp only
      rw [update_of_ne hrt, update_self, ← hfirst]
      cases zs <;> exact hy
    · apply Linked.congr hrest
      intro a ha
      have hat : a ≠ t := by
        rintro rfl
        exact disjoint_of_nodup_append h.nodup ha (by simp)
      have har : a ≠ r := by
        rintro rfl
        simp [ha] at hr
      dsimp only
      rw [update_of_ne hat, update_of_ne har]
    · simp

omit [DecidableEq α] in
theorem Holds.tail_eq_none (h : Holds q xs) : q.tail = none ↔ xs = [] := by
  rw [h.tail, List.getLast?_eq_none_iff]

theorem Holds.remove_cons (h : Holds q (x :: xs)) :
    ∃ q', q.remove = some (q', some x) ∧ Holds q' xs := by
  obtain ⟨hnotin, hnodup⟩ := nodup_cons.mp h.nodup
  obtain ⟨t, htail⟩ : ∃ t, q.tail = some t := by
    rw [h.tail]
    exact ⟨_, List.getLast?_eq_some_getLast (by simp)⟩
  have hlinked := h.linked t htail
  have hnext : q.next t = some x := (isChain_cons_cons.mp hlinked).1
  rw [TailQueue.remove, htail]
  dsimp only
  rw [hnext]
  refine ⟨_, rfl, ?_⟩
  cases xs with
  | nil =>
    have hxt : x = t := by
      have hlast := h.tail.symm.trans htail
      simpa using hlast
    rw [if_pos hxt]
    exact .nil rfl
  | cons y xs =>
    have hlast : (y :: xs).getLast? = some t := by
      rw [← htail, h.tail]
      rfl
    obtain ⟨zs, hzs⟩ := List.getLast?_eq_some_iff.mp hlast
    have htmem : t ∈ y :: xs := by simp [hzs]
    have hxt : x ≠ t := by
      rintro rfl
      exact hnotin htmem
    have hxy : q.next x = some y :=
      (isChain_cons_cons.mp (isChain_cons_cons.mp hlinked).2).1
    have hrest : q.Linked (zs ++ [t]) := by
      rw [← hzs]
      exact hlinked.tail.tail
    rw [if_neg hxt]
    refine ⟨hnodup, hlast.symm, ?_⟩
    rintro u ⟨⟩
    refine isChain_cons.mpr ⟨?_, ?_⟩
    · intro v hv
      dsimp only
      rw [update_self, hxy]
      exact hv
    · rw [hzs] at hnodup ⊢
      apply Linked.congr hrest
      intro a ha
      have hat : a ≠ t := by
        rintro rfl
        exact disjoint_of_nodup_append hnodup ha (by simp)
      exact update_of_ne hat ..

/-! ### Walks -/

/-- The link of a node, unless it leads to the node that a walk began with. -/
def follow (next : α → Option α) (first : Option α) (a : α) : Option α :=
  if next a ≠ first then next a else none

theorem Linked.leads {first : Option α} {ys : List α} (h : q.Linked (ys ++ [t]))
    (hlast : q.next t = first) (hfirst : ∀ b ∈ (ys ++ [t]).tail, some b ≠ first) :
    LinkedStack.Leads (follow q.next first) (ys ++ [t]).head? (ys ++ [t]) := by
  induction ys with
  | nil =>
    apply LinkedStack.Leads.cons
    rw [follow, if_neg (not_not.mpr hlast)]
    exact .nil
  | cons y ys ih =>
    have hrest := ih h.tail fun b hb => hfirst b (mem_of_mem_tail hb)
    obtain ⟨z, zs, hz⟩ : ∃ z zs, ys ++ [t] = z :: zs := by
      cases ys with
      | nil => exact ⟨t, [], rfl⟩
      | cons y ys => exact ⟨y, ys ++ [t], rfl⟩
    have hstep : follow q.next first y = (ys ++ [t]).head? := by
      have hlinked : q.Linked (y :: (ys ++ [t])) := h
      rw [hz] at hlinked ⊢
      have hnext : q.next y = some z := (isChain_cons_cons.mp hlinked).1
      have hne : q.next y ≠ first := by
        rw [hnext]
        exact hfirst z (by simp [hz])
      rw [follow, if_pos hne, hnext]
      rfl
    apply LinkedStack.Leads.cons
    rw [hstep]
    exact hrest

theorem Holds.leads (h : Holds q xs) (ht : q.tail = some t) :
    LinkedStack.Leads (follow q.next (q.next t)) (q.next t) xs := by
  obtain ⟨ys, rfl⟩ := List.getLast?_eq_some_iff.mp (h.tail.symm.trans ht)
  have hlinked := h.linked t ht
  have hhead : q.next t = (ys ++ [t]).head? := by
    cases ys with
    | nil | cons y ys => exact (isChain_cons_cons.mp hlinked).1
  have hwalk : LinkedStack.Leads (follow q.next (q.next t)) (ys ++ [t]).head? (ys ++ [t]) := by
    refine Linked.leads (List.IsChain.tail hlinked) rfl fun b hb => ?_
    rw [hhead]
    cases ys with
    | nil => cases hb
    | cons y ys =>
      rintro ⟨⟩
      exact (nodup_cons.mp h.nodup).1 hb
  rwa [← hhead] at hwalk

theorem insert_next_of_ne {a : α} (hr : a ≠ r) (ht : q.tail ≠ some a) :
    (q.insert r).next a = q.next a := by
  rw [TailQueue.insert]
  cases htail : q.tail with
  | none => exact update_of_ne hr ..
  | some t =>
    have hat : a ≠ t := by
      rintro rfl
      exact ht htail
    dsimp only
    rw [update_of_ne hat, update_of_ne hr]

end TailQueue
