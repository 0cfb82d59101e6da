import Mathlib.Data.List.Sort
import Mathlib.Data.Prod.Lex

/-!
# Ordered registers

A register is a sorted list of the items that are marked. What the order compares of an item may
change, but only while the item is not in the register.
-/
namespace Register

open List

variable {α : Type*} {le le' : α → α → Prop} {marked marked' : α → Prop} {x : α} {xs : List α}

structure Registers (le : α → α → Prop) (marked : α → Prop) (xs : List α) : Prop where
  nodup : xs.Nodup
  mem : ∀ a, a ∈ xs ↔ marked a
  sorted : xs.Pairwise le

theorem Registers.congr (h : Registers le marked xs) (hle : ∀ a b, le' a b ↔ le a b)
    (hmarked : ∀ a, marked' a ↔ marked a) : Registers le' marked' xs where
  nodup := h.nodup
  mem a := (h.mem a).trans (hmarked a).symm
  sorted := h.sorted.imp fun hab => (hle _ _).mpr hab

theorem Registers.erase [DecidableEq α] (h : Registers le marked xs)
    (hle : ∀ a b, a ≠ x → b ≠ x → (le' a b ↔ le a b))
    (hmarked : ∀ a, marked' a ↔ marked a ∧ a ≠ x) : Registers le' marked' (xs.erase x) where
  nodup := h.nodup.erase x
  mem a := by rw [h.nodup.mem_erase_iff, h.mem a, hmarked a, and_comm]
  sorted := by
    apply (h.sorted.sublist erase_sublist).imp_of_mem
    intro a b ha hb hab
    exact (hle a b (h.nodup.mem_erase_iff.mp ha).1 (h.nodup.mem_erase_iff.mp hb).1).mpr hab

theorem Registers.insert [DecidableRel le'] [Std.Total le'] [IsTrans α le']
    (h : Registers le marked xs) (hx : ¬ marked x) (hle : ∀ a b, a ≠ x → b ≠ x → (le' a b ↔ le a b))
    (hmarked : ∀ a, marked' a ↔ a = x ∨ marked a) :
    Registers le' marked' (xs.orderedInsert le' x) where
  nodup := by
    rw [(perm_orderedInsert le' x xs).nodup_iff, nodup_cons, h.mem]
    exact ⟨hx, h.nodup⟩
  mem a := by rw [mem_orderedInsert, h.mem, hmarked]
  sorted := by
    have hne : ∀ a ∈ xs, a ≠ x := by
      rintro a ha rfl
      exact hx ((h.mem a).mp ha)
    apply List.Pairwise.orderedInsert
    apply h.sorted.imp_of_mem
    intro a b ha hb hab
    exact (hle a b (hne a ha) (hne b hb)).mpr hab

/-! ### Items that are compared by two fields and then by themselves -/

section Fields

variable {β γ : Type*} [LinearOrder α] [LinearOrder β] [LinearOrder γ] {f : α → β} {g : α → γ}

def FieldsLe (f : α → β) (g : α → γ) (a b : α) : Prop :=
  f a < f b ∨ f a = f b ∧ (g a < g b ∨ g a = g b ∧ a ≤ b)

theorem fieldsLe_iff (a b : α) :
    FieldsLe f g a b ↔ toLex (f a, toLex (g a, a)) ≤ toLex (f b, toLex (g b, b)) := by
  rw [Prod.Lex.toLex_le_toLex, Prod.Lex.toLex_le_toLex]
  rfl

instance : Std.Total (FieldsLe f g) where
  total a b := by
    rw [fieldsLe_iff, fieldsLe_iff]
    exact le_total _ _

instance : IsTrans α (FieldsLe f g) where
  trans a b c hab hbc := by
    rw [fieldsLe_iff] at hab hbc ⊢
    exact hab.trans hbc

/-- The search for the first item with a field finds none only where there is none. -/
theorem head_dropWhile_eq_none {y : β} (h : xs.Pairwise (FieldsLe f g)) :
    ((xs.dropWhile fun a => decide (f a < y)).head?.filter fun a => decide (f a = y)) = none ↔
      ∀ a ∈ xs, f a ≠ y := by
  induction xs with
  | nil => simp
  | cons a xs ih =>
    obtain ⟨ha, hxs⟩ := pairwise_cons.mp h
    by_cases hlt : f a < y
    · rw [dropWhile_cons_of_pos (by simpa using hlt), ih hxs, forall_mem_cons]
      exact (and_iff_right hlt.ne).symm
    · rw [dropWhile_cons_of_neg (by simpa using hlt), forall_mem_cons]
      by_cases heq : f a = y
      · simp [heq]
      · have hrest : ∀ b ∈ xs, f b ≠ y := by
          intro b hb
          have hle : f a ≤ f b := (ha b hb).elim le_of_lt fun h => le_of_eq h.1
          exact ((lt_of_le_of_ne (not_lt.mp hlt) (Ne.symm heq)).trans_le hle).ne'
        simpa [heq] using hrest

end Fields

end Register
