import Mathlib.Algebra.BigOperators.Group.Finset.Basic

/-!
# Counters of the members that are marked

`Tallies H p c` says that the 32-bit counter `c` is the number of members of `H` that `p`
marks. When the mark of one member changes, the counter follows if it is adjusted by
the difference.
-/
namespace Tally

open Finset

variable {α : Type*} {H : Finset α} {p p' : α → Bool} {c c' : UInt32} {h : α}

/-- The counter is the number of marked members, as far as 32 bits hold it. -/
def Tallies (H : Finset α) (p : α → Bool) (c : UInt32) : Prop :=
  c = UInt32.ofNat (H.filter fun k => p k = true).card

variable [DecidableEq α]

theorem card_filter_step (hmem : h ∈ H) (hrest : ∀ k, k ≠ h → p' k = p k) :
    (H.filter fun k => p' k = true).card + (p h).toNat =
      (H.filter fun k => p k = true).card + (p' h).toNat := by
  have hsplit : ∀ q : α → Bool, (H.filter fun k => q k = true).card =
      (q h).toNat + ((H.erase h).filter fun k => q k = true).card := by
    intro q
    rw [← insert_erase hmem, filter_insert]
    cases hq : q h <;> simp [Nat.add_comm]
  have heq : ((H.erase h).filter fun k => p' k = true) =
      (H.erase h).filter fun k => p k = true := by
    apply filter_congr
    intro k hk
    rw [hrest k (ne_of_mem_erase hk)]
  have h1 := hsplit p
  have h2 := hsplit p'
  rw [heq] at h2
  omega

section

variable (ht : Tallies H p c)
include ht

theorem Tallies.step (hmem : h ∈ H) (hrest : ∀ k, k ≠ h → p' k = p k)
    (hc : c' + UInt32.ofNat (p h).toNat = c + UInt32.ofNat (p' h).toNat) : Tallies H p' c' := by
  have hcard := card_filter_step hmem hrest
  rw [ht, ← UInt32.ofNat_add, ← hcard, UInt32.ofNat_add] at hc
  exact (UInt32.add_left_inj _).mp hc

omit [DecidableEq α] in
theorem Tallies.congr (hp : ∀ k, p' k = p k) : Tallies H p' c := by
  rwa [funext hp]

theorem Tallies.insert (hrest : ∀ k, k ≠ h → p' k = p k) (hmem : h ∉ H)
    (hoff : p' h = false) : Tallies (insert h H) p' c := by
  have heq : (H.filter fun k => p' k = true) = H.filter fun k => p k = true := by
    apply filter_congr
    intro k hk
    rw [hrest k (ne_of_mem_of_not_mem hk hmem)]
  rw [Tallies, filter_insert, if_neg (by simp [hoff]), heq]
  exact ht

theorem Tallies.erase (hoff : p h = false) : Tallies (H.erase h) p c := by
  rw [Tallies, filter_erase, erase_eq_of_notMem (by simp [hoff])]
  exact ht

omit [DecidableEq α] in
theorem Tallies.exact (hsmall : H.card < 2 ^ 32) :
    c.toNat = (H.filter fun k => p k = true).card := by
  have hle := card_filter_le H fun k => p k = true
  rw [ht, UInt32.toNat_ofNat', Nat.mod_eq_of_lt (by omega)]

omit [DecidableEq α] in
theorem Tallies.pos_iff (hsmall : H.card < 2 ^ 32) :
    0 < c ↔ ∃ k ∈ H, p k = true := by
  rw [UInt32.lt_iff_toNat_lt, ht.exact hsmall, UInt32.toNat_zero, card_pos]
  simp only [Finset.Nonempty, mem_filter]

end

end Tally
