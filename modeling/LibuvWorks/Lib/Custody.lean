import Mathlib.Data.List.FinRange
import Mathlib.Data.List.Perm.Basic

/-!
# Resources that are held by one owner

Resources are numbered in the order in which they are opened. `Accounts opened closes given held`
says that each of them was closed once, was given away once, or is held once, and that there are no
others.
-/
namespace Custody

open List Function

variable {opened r : ℕ} {closes given held held' rs : List ℕ}

/-- Every resource that was opened is in exactly one of the three lists, once. -/
def Accounts (opened : ℕ) (closes given held : List ℕ) : Prop :=
  ∀ r, closes.count r + given.count r + held.count r = if r < opened then 1 else 0

theorem Accounts.nil : Accounts 0 [] [] [] := fun _ => rfl

section

variable (h : Accounts opened closes given held)
include h

theorem Accounts.perm (hperm : held.Perm held') :
    Accounts opened closes given held' := by
  intro r
  rw [← hperm.count_eq]
  exact h r

theorem Accounts.exchange {closes' : List ℕ}
    (hsame : ∀ r, closes'.count r + held'.count r = closes.count r + held.count r) :
    Accounts opened closes' given held' := by
  intro r
  have hr := h r
  have hsame := hsame r
  omega

theorem Accounts.acquire :
    Accounts (opened + 1) closes given (opened :: held) := by
  intro r
  have hr := h r
  rw [count_cons]
  by_cases hnew : opened = r
  · subst hnew
    rw [if_neg (Nat.lt_irrefl _)] at hr
    rw [if_pos (Nat.lt_succ_self _), if_pos (beq_self_eq_true _)]
    omega
  · rw [if_neg (by simpa using hnew)]
    split_ifs at hr with hlt
    · rw [if_pos (by omega)]
      exact hr
    · rw [if_neg (by omega)]
      exact hr

theorem Accounts.acquireMany (n : ℕ) :
    Accounts (opened + n) closes given (List.range' opened n ++ held) := by
  induction n with
  | zero => exact h
  | succ n ih =>
    apply ih.acquire.perm
    rw [range'_1_concat, append_assoc]
    exact perm_middle.symm

end

theorem Accounts.release (h : Accounts opened closes given (rs ++ held)) :
    Accounts opened (rs ++ closes) given held := by
  intro r
  have hr := h r
  rw [count_append] at hr ⊢
  omega

theorem Accounts.transfer (h : Accounts opened closes given (rs ++ held)) :
    Accounts opened closes (rs ++ given) held := by
  intro r
  have hr := h r
  rw [count_append] at hr ⊢
  omega

section

variable (h : Accounts opened closes given held)
include h

theorem Accounts.discard :
    Accounts (opened + 1) (opened :: closes) given held := by
  have hheld : Accounts (opened + 1) closes given ([opened] ++ held) := h.acquire
  exact hheld.release

theorem Accounts.nodup : closes.Nodup := by
  rw [nodup_iff_count_le_one]
  intro r
  have hr := h r
  split_ifs at hr <;> omega

theorem Accounts.lt_of_mem (hmem : r ∈ closes) :
    r < opened := by
  have hr := h r
  have hpos := count_pos_iff.mpr hmem
  by_contra hlt
  rw [if_neg hlt] at hr
  omega

theorem Accounts.of_mem_held (hmem : r ∈ held) :
    r ∉ closes ∧ r < opened := by
  have hr := h r
  have hpos := count_pos_iff.mpr hmem
  split_ifs at hr with hlt
  · refine ⟨fun habs => ?_, hlt⟩
    have hcloses := count_pos_iff.mpr habs
    omega
  · omega

end

theorem Accounts.settled (h : Accounts opened closes given []) (hlt : r < opened) :
    closes.count r + given.count r = 1 := by
  have hr := h r
  rwa [if_pos hlt] at hr

/-! ### Slots -/

section Slots

variable {n : ℕ} {f : Fin n → Option ℕ} {i : Fin n}

def slots (f : Fin n → Option ℕ) : List ℕ := (List.finRange n).filterMap f

def otherSlots (f : Fin n → Option ℕ) (i : Fin n) : List ℕ :=
  ((List.finRange n).erase i).filterMap f

theorem slots_none : slots (fun _ : Fin n => none) = [] := by simp [slots]

theorem otherSlots_update (x : Option ℕ) :
    otherSlots (Function.update f i x) i = otherSlots f i := by
  apply filterMap_congr
  intro j hj
  apply update_of_ne
  rintro rfl
  exact List.Nodup.not_mem_erase (nodup_finRange n) hj

theorem slots_perm (f : Fin n → Option ℕ) (i : Fin n) :
    (slots f).Perm ((f i).toList ++ otherSlots f i) := by
  have hperm := (perm_cons_erase (mem_finRange i)).filterMap f
  cases hf : f i with
  | none =>
    rw [filterMap_cons_none hf] at hperm
    exact hperm
  | some r =>
    rw [filterMap_cons_some hf] at hperm
    exact hperm

theorem slots_update_perm (f : Fin n → Option ℕ) (i : Fin n) (x : Option ℕ) :
    (slots (Function.update f i x)).Perm (x.toList ++ otherSlots f i) := by
  have hperm := slots_perm (Function.update f i x) i
  rwa [update_self, otherSlots_update] at hperm

variable {rest : List ℕ}

section

variable (h : Accounts opened closes given (slots f ++ rest))
include h

theorem Accounts.fill (hempty : f i = none) :
    Accounts (opened + 1) closes given (slots (Function.update f i (some opened)) ++ rest) := by
  have hold := slots_perm f i
  rw [hempty] at hold
  have hnew := slots_update_perm f i (some opened)
  exact (h.perm (hold.append_right rest)).acquire.perm (hnew.append_right rest).symm

theorem Accounts.dropSlot (i : Fin n) :
    Accounts opened ((f i).toList ++ closes) given (slots (Function.update f i none) ++ rest) := by
  have hperm := (slots_perm f i).append_right rest
  rw [append_assoc] at hperm
  exact (h.perm hperm).release.perm ((slots_update_perm f i none).append_right rest).symm

theorem Accounts.giveSlot (i : Fin n) :
    Accounts opened closes ((f i).toList ++ given) (slots (Function.update f i none) ++ rest) := by
  have hperm := (slots_perm f i).append_right rest
  rw [append_assoc] at hperm
  exact (h.perm hperm).transfer.perm ((slots_update_perm f i none).append_right rest).symm

end

end Slots

end Custody
