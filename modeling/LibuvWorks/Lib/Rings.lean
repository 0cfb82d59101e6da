import LibuvWorks.Lib.Ring

/-!
# Rings that share their links

Several heads have rings of their own, and no node is in two of them. An operation on one ring
leaves the other ones alone.
-/

variable {α : Type*}

namespace RingLinks

open List Function

variable {L : RingLinks α} {h n q : α} {xs : List α}

/-! ### The members of a ring, read from its links -/

/-- The nodes after `x` up to `h`, at most `k` of them. -/
def upTo [DecidableEq α] (L : RingLinks α) (h : α) : ℕ → α → List α
  | 0, _ => []
  | k + 1, x => if L.next x = h then [] else L.next x :: L.upTo h k (L.next x)

/-- The members of the ring of `h`, at most `k` of them. -/
def toList [DecidableEq α] (L : RingLinks α) (h : α) (k : ℕ) : List α := L.upTo h k h

theorem upTo_eq [DecidableEq α] (hnd : h ∉ xs) {x : α} (hlinks : (x :: xs).map L.next = xs ++ [h])
    {k : ℕ} (hk : xs.length ≤ k) : L.upTo h k x = xs := by
  induction xs generalizing x k with
  | nil =>
    cases k with
    | zero => rfl
    | succ k =>
      simp only [map_cons, map_nil, nil_append, List.cons.injEq, and_true] at hlinks
      rw [upTo, if_pos hlinks]
  | cons y ys ih =>
    cases k with
    | zero => exact absurd hk (Nat.not_succ_le_zero _)
    | succ k =>
      obtain ⟨hy, hys⟩ := not_or.mp (mt mem_cons.mpr hnd)
      rw [map_cons, cons_append, List.cons.injEq] at hlinks
      rw [upTo, hlinks.1, if_neg (Ne.symm hy), ih hys hlinks.2 (Nat.le_of_succ_le_succ hk)]

theorem Ring.toList_eq [DecidableEq α] (hL : Ring L h xs) {k : ℕ} (hk : xs.length ≤ k) :
    L.toList h k = xs := upTo_eq (nodup_cons.mp hL.nodup).1 hL.next hk

/-! ### Families of rings -/

/-- Each of the heads has a ring, and these have no node in common. -/
structure Rings (L : RingLinks α) (heads : Set α) (xs : α → List α) : Prop where
  ring : ∀ h ∈ heads, Ring L h (xs h)
  disjoint : ∀ h ∈ heads, ∀ h' ∈ heads, h ≠ h' → ∀ x ∈ h :: xs h, x ∉ h' :: xs h'

variable {heads : Set α} {xs : α → List α}

theorem Rings.mono {heads' : Set α} (hL : Rings L heads xs) (hsub : heads' ⊆ heads) :
    Rings L heads' xs where
  ring h hh := hL.ring h (hsub hh)
  disjoint h hh h' hh' := hL.disjoint h (hsub hh) h' (hsub hh')

theorem Rings.congr {ys : α → List α} (hL : Rings L heads xs) (hsame : ∀ h ∈ heads, ys h = xs h) :
    Rings L heads ys where
  ring h hh := by
    rw [hsame h hh]
    exact hL.ring h hh
  disjoint h hh h' hh' := by
    rw [hsame h hh, hsame h' hh']
    exact hL.disjoint h hh h' hh'

theorem Rings.head_not_mem (hL : Rings L heads xs) (hn : n ∈ heads) (hh : h ∈ heads) :
    n ∉ xs h := by
  intro hmem
  by_cases hne : n = h
  · subst hne
    exact (nodup_cons.mp (hL.ring n hn).nodup).1 hmem
  · exact hL.disjoint n hn h hh hne n mem_cons_self (mem_cons_of_mem h hmem)

variable [DecidableEq α]

section

variable (hL : Rings L heads xs)
include hL

theorem Rings.update {L' : RingLinks α} {ys : List α} (hh : h ∈ heads)
    (hring : Ring L' h ys) (hothers : ∀ h' ∈ heads, h' ≠ h → Ring L' h' (xs h'))
    (hys : ∀ x ∈ ys, x ∈ xs h ∨ ∀ h' ∈ heads, x ∉ h' :: xs h') :
    Rings L' heads (Function.update xs h ys) := by
  have hfree : ∀ h' ∈ heads, h' ≠ h → ∀ x ∈ h :: ys, x ∉ h' :: xs h' := by
    intro h' hh' hne x hx
    rcases mem_cons.mp hx with rfl | hx
    · exact hL.disjoint x hh h' hh' hne.symm x mem_cons_self
    · rcases hys x hx with hx | hx
      · exact hL.disjoint h hh h' hh' hne.symm x (mem_cons_of_mem h hx)
      · exact hx h' hh'
  constructor
  · intro h' hh'
    by_cases hne : h' = h
    · subst hne
      rwa [update_self]
    · rw [update_of_ne hne]
      exact hothers h' hh' hne
  · intro h₁ hh₁ h₂ hh₂ hne x hx
    by_cases h₁h : h₁ = h
    · subst h₁h
      rw [update_self] at hx
      rw [update_of_ne hne.symm]
      exact hfree h₂ hh₂ hne.symm x hx
    · rw [update_of_ne h₁h] at hx
      by_cases h₂h : h₂ = h
      · subst h₂h
        rw [update_self]
        exact fun hx₂ => hfree h₁ hh₁ hne x hx₂ hx
      · rw [update_of_ne h₂h]
        exact hL.disjoint h₁ hh₁ h₂ hh₂ hne x hx

theorem Rings.remove (hh : h ∈ heads) (hq : q ∈ xs h) :
    Rings (L.remove q) heads (Function.update xs h ((xs h).erase q)) := by
  obtain ⟨ys, zs, hsplit⟩ := append_of_mem hq
  have hring := hL.ring h hh
  have hdisj := fun h' hh' (hne : h' ≠ h) => hL.disjoint h' hh' h hh hne
  rw [hsplit] at hring hdisj
  have hnot : q ∉ ys := by
    have hnd := (nodup_cons.mp hring.nodup).2
    rw [nodup_append] at hnd
    exact fun hmem => hnd.2.2 q hmem q mem_cons_self rfl
  have herase : (xs h).erase q = ys ++ zs := by
    rw [hsplit, erase_append_right _ hnot, erase_cons_head]
  apply hL.update hh
  · rw [herase]
    exact hring.remove
  · intro h' hh' hne
    exact hring.remove_of_disjoint (hL.ring h' hh') (hdisj h' hh' hne)
  · exact fun x hx => .inl (mem_of_mem_erase hx)

theorem Rings.insertTail (hh : h ∈ heads)
    (hq : ∀ h' ∈ heads, q ∉ h' :: xs h') :
    Rings (L.insertTail h q) heads (Function.update xs h (xs h ++ [q])) := by
  apply hL.update hh
  · exact (hL.ring h hh).insertTail (hq h hh)
  · intro h' hh' hne
    apply (hL.ring h hh).insertTail_of_disjoint (hL.ring h' hh')
    intro x hx
    exact ⟨ne_of_mem_of_not_mem hx (hq h' hh'), hL.disjoint h' hh' h hh hne x hx⟩
  · intro x hx
    rcases mem_append.mp hx with hx | hx
    · exact .inl hx
    · rw [mem_singleton.mp hx]
      exact .inr hq

theorem Rings.insertHead (hh : h ∈ heads)
    (hq : ∀ h' ∈ heads, q ∉ h' :: xs h') :
    Rings (L.insertHead h q) heads (Function.update xs h (q :: xs h)) := by
  apply hL.update hh
  · exact (hL.ring h hh).insertHead (hq h hh)
  · intro h' hh' hne
    apply (hL.ring h hh).insertHead_of_disjoint (hL.ring h' hh')
    intro x hx
    exact ⟨ne_of_mem_of_not_mem hx (hq h' hh'), hL.disjoint h' hh' h hh hne x hx⟩
  · intro x hx
    rcases mem_cons.mp hx with rfl | hx
    · exact .inr hq
    · exact .inl hx

theorem Rings.init (hn : ∀ h ∈ heads, n ∉ h :: xs h) :
    Rings (L.init n) (insert n heads) (Function.update xs n []) := by
  have hne : ∀ h ∈ heads, h ≠ n := fun h hh habs => hn h hh (habs ▸ mem_cons_self)
  constructor
  · rintro h (rfl | hh)
    · rw [update_self]
      exact ring_init
    · rw [update_of_ne (hne h hh)]
      exact (hL.ring h hh).init (hn h hh)
  · rintro h₁ (rfl | hh₁) h₂ (rfl | hh₂) h₁₂ x hx
    · exact absurd rfl h₁₂
    · rw [update_self, mem_singleton] at hx
      rw [update_of_ne (hne h₂ hh₂), hx]
      exact hn h₂ hh₂
    · rw [update_of_ne (hne h₁ hh₁)] at hx
      rw [update_self, mem_singleton]
      exact ne_of_mem_of_not_mem hx (hn h₁ hh₁)
    · rw [update_of_ne (hne h₁ hh₁)] at hx
      rw [update_of_ne (hne h₂ hh₂)]
      exact hL.disjoint h₁ hh₁ h₂ hh₂ h₁₂ x hx

end

/-- Moving all members changes no ring that neither the new head nor the old ring meets. -/
theorem Ring.move_of_disjoint {ys ys' : List α} {h' : α} (hL : Ring L h ys) (hn : n ∉ h :: ys)
    (hL' : Ring L h' ys') (hdisj : ∀ x ∈ h' :: ys', x ≠ n ∧ x ∉ h :: ys) :
    Ring (L.move h n) h' ys' := by
  cases ys with
  | nil =>
    have hnext : L.next h = h := hL.next.head
    rw [RingLinks.move, if_pos hnext]
    exact hL'.init fun habs => (hdisj n habs).1 rfl
  | cons y ys =>
    have hnext : L.next h = y := hL.next.head
    have hne : y ≠ h := by
      rintro rfl
      simpa using hL.nodup
    rw [RingLinks.move, hnext, if_neg hne]
    have hL : Ring L h ([] ++ y :: ys) := hL
    exact hL.split_of_disjoint hn hL' hdisj

theorem Rings.spread {L' : RingLinks α} {ms ks : List α} (hL : Rings L heads xs) (hh : h ∈ heads)
    (hn : ∀ h' ∈ heads, n ∉ h' :: xs h') (hnew : Ring L' n ms) (hold : Ring L' h ks)
    (hothers : ∀ h' ∈ heads, h' ≠ h → Ring L' h' (xs h')) (hms : ms ⊆ xs h) (hks : ks ⊆ xs h)
    (hdisj : ∀ x ∈ ms, x ∉ ks) :
    Rings L' (insert n heads) (Function.update (Function.update xs n ms) h ks) := by
  have hne : ∀ h' ∈ heads, h' ≠ n := fun h' hh' habs => hn h' hh' (habs ▸ mem_cons_self)
  have hxn : Function.update (Function.update xs n ms) h ks n = ms := by
    rw [update_of_ne (hne h hh).symm, update_self]
  have hxh : Function.update (Function.update xs n ms) h ks h = ks := update_self ..
  have hsame : ∀ h' ∈ heads, h' ≠ h →
      Function.update (Function.update xs n ms) h ks h' = xs h' := by
    intro h' hh' hh'h
    rw [update_of_ne hh'h, update_of_ne (hne h' hh')]
  -- Every head of before has some of its members of before.
  have hsub : ∀ h' ∈ heads, Function.update (Function.update xs n ms) h ks h' ⊆ xs h' := by
    intro h' hh'
    by_cases hh'h : h' = h
    · rw [hh'h, hxh]
      exact hks
    · rw [hsame h' hh' hh'h]
      exact List.Subset.refl _
  -- A node of the new head's ring is the new head or was a member.
  have hfree : ∀ h' ∈ heads, ∀ x ∈ n :: ms,
      x ∉ h' :: Function.update (Function.update xs n ms) h ks h' := by
    intro h' hh' x hx hmem
    have hin := cons_subset_cons h' (hsub h' hh') hmem
    obtain rfl | hx := mem_cons.mp hx
    · exact hn h' hh' hin
    · by_cases hh'h : h' = h
      · rw [hh'h, hxh] at hmem
        obtain rfl | hmem := mem_cons.mp hmem
        · exact hL.head_not_mem hh hh (hms hx)
        · exact hdisj x hx hmem
      · exact hL.disjoint h hh h' hh' (Ne.symm hh'h) x (mem_cons_of_mem h (hms hx)) hin
  constructor
  · rintro h' (rfl | hh')
    · rw [hxn]
      exact hnew
    · by_cases hh'h : h' = h
      · rw [hh'h, hxh]
        exact hold
      · rw [hsame h' hh' hh'h]
        exact hothers h' hh' hh'h
  · rintro h₁ (rfl | hh₁) h₂ (rfl | hh₂) h₁₂ x hx
    · exact absurd rfl h₁₂
    · rw [hxn] at hx
      exact hfree h₂ hh₂ x hx
    · rw [hxn]
      exact fun hx' => hfree h₁ hh₁ x hx' hx
    · intro hx'
      exact hL.disjoint h₁ hh₁ h₂ hh₂ h₁₂ x (cons_subset_cons h₁ (hsub h₁ hh₁) hx)
        (cons_subset_cons h₂ (hsub h₂ hh₂) hx')

theorem Rings.move (hL : Rings L heads xs) (hh : h ∈ heads) (hn : ∀ h' ∈ heads, n ∉ h' :: xs h') :
    Rings (L.move h n) (insert n heads) (Function.update (Function.update xs n (xs h)) h []) := by
  obtain ⟨hmoved, hempty⟩ := (hL.ring h hh).move (hn h hh)
  refine hL.spread hh hn hmoved hempty (fun h' hh' hne => ?_) (List.Subset.refl _)
    (nil_subset _) fun x _ => not_mem_nil
  apply (hL.ring h hh).move_of_disjoint (hn h hh) (hL.ring h' hh')
  intro x hx
  exact ⟨ne_of_mem_of_not_mem hx (hn h' hh'), hL.disjoint h' hh' h hh hne x hx⟩

theorem Rings.split {ys zs : List α} (hL : Rings L heads xs) (hh : h ∈ heads)
    (hxs : xs h = ys ++ q :: zs) (hn : ∀ h' ∈ heads, n ∉ h' :: xs h') :
    Rings (L.split h q n) (insert n heads)
      (Function.update (Function.update xs n (q :: zs)) h ys) := by
  have hring := hL.ring h hh
  have hnh := hn h hh
  rw [hxs] at hring hnh
  obtain ⟨hafter, hbefore⟩ := hring.split hnh
  refine hL.spread hh hn hafter hbefore (fun h' hh' hne => ?_) ?_ ?_ fun x hx hys => ?_
  · apply hring.split_of_disjoint hnh (hL.ring h' hh')
    intro x hx
    have hdisj := hL.disjoint h' hh' h hh hne x hx
    rw [hxs] at hdisj
    exact ⟨ne_of_mem_of_not_mem hx (hn h' hh'), hdisj⟩
  · rw [hxs]
    exact subset_append_right ys _
  · rw [hxs]
    exact subset_append_left ys _
  · exact (nodup_append.mp hring.nodup.of_cons).2.2 x hys x hx rfl

theorem Rings.add (hL : Rings L heads xs) (hh : h ∈ heads) (hn : n ∈ heads) (hne : h ≠ n)
    (hxs : xs n ≠ []) :
    Rings (L.add h n) (heads \ {n}) (Function.update xs h (xs h ++ xs n)) := by
  have hdisj := hL.disjoint h hh n hn hne
  have hring := (hL.ring h hh).add (hL.ring n hn) hxs hdisj
  have hothers : ∀ h' ∈ heads \ {n}, h' ≠ h → Ring (L.add h n) h' (xs h') := by
    rintro h' ⟨hh', hh'n⟩ hh'h
    apply (hL.ring h hh).add_of_disjoint (hL.ring n hn) hxs hdisj (hL.ring h' hh')
    exact fun x hx => ⟨hL.disjoint h' hh' h hh hh'h x hx, hL.disjoint h' hh' n hn hh'n x hx⟩
  refine (hL.mono fun _ hx => hx.1).update ⟨hh, hne⟩ hring hothers fun x hx => ?_
  obtain hx | hx := mem_append.mp hx
  · exact .inl hx
  · exact .inr fun h' hh' => hL.disjoint n hn h' hh'.1 (Ne.symm hh'.2) x (mem_cons_of_mem n hx)

end RingLinks
