import Mathlib.Data.List.Induction
import Mathlib.Data.List.Nodup

/-!
# Circular doubly linked lists

Nodes are linked to a next and a previous node. `Ring L h xs` says that the links lead
from the head `h` through the members `xs` back to `h`, in both directions. A node is removed
or inserted by writing the links of its neighbours, so other rings stay as they are.
-/

variable {α : Type*}

structure RingLinks (α : Type*) where
  next : α → α
  prev : α → α

namespace RingLinks

open List Function
open List (append_assoc append_inj cons_append map_append map_congr_left map_cons mem_cons
  mem_cons_of_mem mem_cons_self mem_reverse nodup_append nodup_cons reverse_append reverse_cons
  reverse_reverse singleton_append)
open Function (update update_of_ne update_self)

/-- The function leads from `h` through `xs` back to `h`. -/
def Cycle (f : α → α) (h : α) (xs : List α) : Prop := (h :: xs).map f = xs ++ [h]

/-- A head with its members; the links are the same in both directions. -/
structure Ring (L : RingLinks α) (h : α) (xs : List α) : Prop where
  nodup : (h :: xs).Nodup
  next : Cycle L.next h xs
  prev : Cycle L.prev h xs.reverse

variable {L L' : RingLinks α} {f g : α → α} {h h' q : α} {xs xs' ys zs : List α}

theorem Cycle.congr (hf : Cycle f h xs) (hfg : ∀ x ∈ h :: xs, g x = f x) : Cycle g h xs := by
  rw [Cycle, map_congr_left hfg]
  exact hf

theorem Cycle.member (hf : Cycle f h (ys ++ q :: zs)) : f q = zs.headD h := by
  have hsplit : (h :: ys).map f ++ (q :: zs).map f = (ys ++ [q]) ++ (zs ++ [h]) := by
    have heq : (h :: (ys ++ q :: zs)).map f = (ys ++ q :: zs) ++ [h] := hf
    simpa using heq
  have htail := (append_inj hsplit (by simp)).2
  cases zs with
  | nil =>
    simp only [map_cons, map_nil, nil_append, List.cons.injEq, and_true] at htail
    exact htail
  | cons z zs =>
    simp only [map_cons, cons_append, List.cons.injEq] at htail
    exact htail.1

theorem Cycle.head (hf : Cycle f h xs) : f h = xs.headD h := by
  have heq : (h :: xs).map f = xs ++ [h] := hf
  cases xs with
  | nil => simpa using heq
  | cons x xs =>
    simp only [map_cons, cons_append, List.cons.injEq] at heq
    exact heq.1

theorem Cycle.split (hf : Cycle f h (ys ++ q :: zs)) :
    (h :: ys).map f = ys ++ [q] ∧ f q :: zs.map f = zs ++ [h] := by
  have hsplit : (h :: ys).map f ++ (q :: zs).map f = (ys ++ [q]) ++ (zs ++ [h]) := by
    have heq : (h :: (ys ++ q :: zs)).map f = (ys ++ q :: zs) ++ [h] := hf
    simpa using heq
  exact append_inj hsplit (by simp)

theorem Cycle.of_split {w : α} (hys : (h :: ys).map f = ys ++ [w])
    (hzs : w :: zs.map f = zs ++ [h]) : Cycle f h (ys ++ zs) := by
  have heq : (h :: ys).map f ++ zs.map f = (ys ++ zs) ++ [h] := by
    rw [hys, append_assoc, append_assoc, ← hzs]
    rfl
  rw [Cycle, ← heq, ← map_append]
  rfl

theorem Ring.congr (hL : Ring L h xs) (hnext : ∀ x ∈ h :: xs, L'.next x = L.next x)
    (hprev : ∀ x ∈ h :: xs, L'.prev x = L.prev x) : Ring L' h xs where
  nodup := hL.nodup
  next := hL.next.congr hnext
  prev := by
    apply hL.prev.congr
    intro x hx
    exact hprev x (by simpa using hx)

theorem Ring.next_member (hL : Ring L h (ys ++ q :: zs)) : L.next q = zs.headD h := hL.next.member

theorem Ring.prev_member (hL : Ring L h (ys ++ q :: zs)) : L.prev q = ys.reverse.headD h := by
  have hprev := hL.prev
  rw [reverse_append, reverse_cons, append_assoc] at hprev
  exact hprev.member

theorem headD_mem (xs : List α) : xs.headD h ∈ h :: xs := by
  cases xs with
  | nil | cons x xs => simp

theorem Ring.last_mem (hL : Ring L h xs) : L.prev h ∈ h :: xs := by
  have hmem := headD_mem (h := h) xs.reverse
  rwa [← hL.prev.head, mem_cons, mem_reverse, ← mem_cons] at hmem

theorem Ring.neighbours (hL : Ring L h (ys ++ q :: zs)) :
    L.next q ∈ h :: (ys ++ q :: zs) ∧ L.prev q ∈ h :: (ys ++ q :: zs) := by
  rw [hL.next_member, hL.prev_member]
  have hn := headD_mem (h := h) zs
  have hp := headD_mem (h := h) ys.reverse
  simp only [mem_cons, mem_append, mem_reverse] at hn hp ⊢
  tauto

variable [DecidableEq α]

theorem map_update_last {v w : α} (hnd : (h :: ys).Nodup) (hys : (h :: ys).map f = ys ++ [v]) :
    (h :: ys).map (update f (ys.reverse.headD h) w) = ys ++ [w] := by
  induction ys using reverseRecOn with
  | nil => simp
  | append_singleton ys p _ =>
    rw [reverse_append, reverse_singleton, singleton_append, headD_cons]
    have hsplit : (h :: ys).map f ++ [f p] = (ys ++ [p]) ++ [v] := by
      rw [← hys]
      simp
    obtain ⟨hfront, -⟩ := append_inj hsplit (by simp)
    have hp : p ∉ h :: ys := by
      rw [← cons_append, nodup_append] at hnd
      exact fun habs => hnd.2.2 p habs p (mem_singleton_self p) rfl
    have hkeep : (h :: ys).map (update f p w) = (h :: ys).map f := by
      apply map_congr_left
      intro x hx
      rw [update_of_ne (ne_of_mem_of_not_mem hx hp)]
    rw [← cons_append, map_append, hkeep, hfront]
    simp

theorem Cycle.skip (hf : Cycle f h (ys ++ q :: zs)) (hnd : (h :: (ys ++ q :: zs)).Nodup) :
    Cycle (update f (ys.reverse.headD h) (f q)) h (ys ++ zs) := by
  obtain ⟨hys, hzs⟩ := hf.split
  have hnd' : (h :: ys ++ q :: zs).Nodup := hnd
  obtain ⟨hndys, -, hdisj⟩ := nodup_append.mp hnd'
  have hmem : ys.reverse.headD h ∈ h :: ys := by
    cases hr : ys.reverse with
    | nil => simp
    | cons p ps =>
      rw [mem_cons, ← mem_reverse, hr]
      exact .inr mem_cons_self
  apply Cycle.of_split (map_update_last hndys hys)
  rw [← hzs]
  congr 1
  apply map_congr_left
  intro x hx
  rw [update_of_ne]
  exact (hdisj _ hmem x (mem_cons_of_mem _ hx)).symm

/-! ### The operations -/

def init (L : RingLinks α) (q : α) : RingLinks α :=
  ⟨update L.next q q, update L.prev q q⟩

def remove (L : RingLinks α) (q : α) : RingLinks α :=
  ⟨update L.next (L.prev q) (L.next q), update L.prev (L.next q) (L.prev q)⟩

def insertTail (L : RingLinks α) (h q : α) : RingLinks α :=
  ⟨update (update L.next q h) (L.prev h) q,
    update (update L.prev q (L.prev h)) h q⟩

theorem ring_init : Ring (L.init h) h [] where
  nodup := nodup_singleton h
  next := by simp [Cycle, init]
  prev := by simp [Cycle, init]

theorem Ring.init (hL : Ring L h xs) (hq : q ∉ h :: xs) : Ring (L.init q) h xs := by
  apply hL.congr
  · intro x hx
    exact update_of_ne (ne_of_mem_of_not_mem hx hq) ..
  · intro x hx
    exact update_of_ne (ne_of_mem_of_not_mem hx hq) ..

theorem Ring.remove (hL : Ring L h (ys ++ q :: zs)) : Ring (L.remove q) h (ys ++ zs) where
  nodup := by
    apply List.Nodup.sublist _ hL.nodup
    apply List.Sublist.cons_cons
    exact List.Sublist.append_left (sublist_cons_self q zs) ys
  next := by
    change Cycle (update L.next (L.prev q) (L.next q)) h (ys ++ zs)
    rw [hL.prev_member]
    exact hL.next.skip hL.nodup
  prev := by
    have hprev := hL.prev
    have hrev : (ys ++ q :: zs).reverse = zs.reverse ++ q :: ys.reverse := by simp
    rw [hrev] at hprev
    have hnd : (h :: (zs.reverse ++ q :: ys.reverse)).Nodup := by
      rw [← hrev, nodup_cons, mem_reverse, nodup_reverse, ← nodup_cons]
      exact hL.nodup
    have hskip := hprev.skip hnd
    rw [reverse_reverse, ← hL.next_member] at hskip
    rw [reverse_append]
    exact hskip

theorem Ring.remove_of_disjoint (hL : Ring L h (ys ++ q :: zs)) (hL' : Ring L h' xs')
    (hdisj : ∀ x ∈ h' :: xs', x ∉ h :: (ys ++ q :: zs)) : Ring (L.remove q) h' xs' := by
  obtain ⟨hn, hp⟩ := hL.neighbours
  have hne : ∀ x ∈ h' :: xs', x ≠ L.prev q ∧ x ≠ L.next q := by
    intro x hx
    constructor
    · rintro rfl
      exact hdisj _ hx hp
    · rintro rfl
      exact hdisj _ hx hn
  apply hL'.congr
  · intro x hx
    exact update_of_ne (hne x hx).1 ..
  · intro x hx
    exact update_of_ne (hne x hx).2 ..

theorem Ring.remove_self (hL : Ring L q []) : L.remove q = L := by
  have hnext : L.next q = q := hL.next.head
  have hprev : L.prev q = q := hL.prev.head
  simp only [RingLinks.remove, hnext, hprev]
  congr
  · exact update_eq_self_iff.mpr hnext.symm
  · exact update_eq_self_iff.mpr hprev.symm

theorem Ring.insertTail (hL : Ring L h xs) (hq : q ∉ h :: xs) :
    Ring (L.insertTail h q) h (xs ++ [q]) where
  nodup := by
    rw [← cons_append, nodup_append]
    refine ⟨hL.nodup, nodup_singleton q, fun x hx y hy hxy => ?_⟩
    rw [hxy, mem_singleton.mp hy] at hx
    exact hq hx
  next := by
    have hlast : L.prev h = xs.reverse.headD h := hL.prev.head
    have hcycle : Cycle (update L.next q h) h xs :=
      hL.next.congr fun x hx => update_of_ne (ne_of_mem_of_not_mem hx hq) ..
    have hmap := map_update_last hL.nodup hcycle (w := q)
    have hprev : q ≠ xs.reverse.headD h := by
      have hmem := headD_mem (h := h) xs.reverse
      rintro rfl
      exact hq (by simpa using hmem)
    change Cycle (update (update L.next q h) (L.prev h) q) h (xs ++ [q])
    rw [hlast, Cycle, ← cons_append, map_append, hmap, map_singleton,
      update_of_ne hprev, update_self]
  prev := by
    have hprev : (h :: xs.reverse).map L.prev = xs.reverse ++ [h] := hL.prev
    have hqh : q ≠ h := fun habs => hq (habs ▸ mem_cons_self)
    have hkeep : xs.reverse.map (update (update L.prev q (L.prev h)) h q) =
        xs.reverse.map L.prev := by
      apply map_congr_left
      intro x hx
      have hxs : x ∈ xs := mem_reverse.mp hx
      have hxh : x ≠ h := by
        rintro rfl
        exact (nodup_cons.mp hL.nodup).1 hxs
      have hxq : x ≠ q := ne_of_mem_of_not_mem (mem_cons_of_mem h hxs) hq
      rw [update_of_ne hxh, update_of_ne hxq]
    rw [map_cons] at hprev
    rw [reverse_append, reverse_singleton, singleton_append, Cycle]
    simp only [RingLinks.insertTail, map_cons, update_self, update_of_ne hqh,
      hkeep, hprev, cons_append]

theorem Ring.insertTail_of_disjoint (hL : Ring L h xs) (hL' : Ring L h' xs')
    (hdisj : ∀ x ∈ h' :: xs', x ≠ q ∧ x ∉ h :: xs) : Ring (L.insertTail h q) h' xs' := by
  have hlast := hL.last_mem
  apply hL'.congr
  · intro x hx
    have hne : x ≠ L.prev h := by
      rintro rfl
      exact (hdisj _ hx).2 hlast
    exact (update_of_ne hne ..).trans (update_of_ne (hdisj x hx).1 ..)
  · intro x hx
    have hne : x ≠ h := by
      rintro rfl
      exact (hdisj _ hx).2 mem_cons_self
    exact (update_of_ne hne ..).trans (update_of_ne (hdisj x hx).1 ..)

/-! ### The other end, and all members at once -/

def swap (L : RingLinks α) : RingLinks α := ⟨L.prev, L.next⟩

omit [DecidableEq α] in
theorem Ring.swap (hL : Ring L h xs) : Ring L.swap h xs.reverse where
  nodup := by
    rw [nodup_cons, mem_reverse, nodup_reverse, ← nodup_cons]
    exact hL.nodup
  next := hL.prev
  prev := by
    rw [reverse_reverse]
    exact hL.next

def insertHead (L : RingLinks α) (h q : α) : RingLinks α :=
  ⟨update (update L.next q (L.next h)) h q,
    update (update L.prev q h) (L.next h) q⟩

theorem Ring.insertHead (hL : Ring L h xs) (hq : q ∉ h :: xs) :
    Ring (L.insertHead h q) h (q :: xs) := by
  have hq' : q ∉ h :: xs.reverse := by simpa using hq
  have hring := (hL.swap.insertTail hq').swap
  rw [reverse_append, reverse_reverse] at hring
  exact hring

theorem Ring.insertHead_of_disjoint (hL : Ring L h xs) (hL' : Ring L h' xs')
    (hdisj : ∀ x ∈ h' :: xs', x ≠ q ∧ x ∉ h :: xs) : Ring (L.insertHead h q) h' xs' := by
  have hdisj' : ∀ x ∈ h' :: xs'.reverse, x ≠ q ∧ x ∉ h :: xs.reverse := by
    intro x hx
    have hmem := hdisj x (by simpa using hx)
    simpa using hmem
  have hring := (hL.swap.insertTail_of_disjoint hL'.swap hdisj').swap
  rw [reverse_reverse] at hring
  exact hring

/-- The members from `q` on go over to the head `n`, and `h` keeps those before `q`. -/
def split (L : RingLinks α) (h q n : α) : RingLinks α :=
  let L : RingLinks α := { L with prev := update L.prev n (L.prev h) }
  let L : RingLinks α := { L with next := update L.next (L.prev n) n }
  let L : RingLinks α := { L with next := update L.next n q }
  let L : RingLinks α := { L with prev := update L.prev h (L.prev q) }
  let L : RingLinks α := { L with next := update L.next (L.prev h) h }
  { L with prev := update L.prev q n }

/-- The members of `n` come after those of `h`. -/
def add (L : RingLinks α) (h n : α) : RingLinks α :=
  let L : RingLinks α := { L with next := update L.next (L.prev h) (L.next n) }
  let L : RingLinks α := { L with prev := update L.prev (L.next n) (L.prev h) }
  let L : RingLinks α := { L with prev := update L.prev h (L.prev n) }
  { L with next := update L.next (L.prev h) h }

/-- All members go over to the head `n`. -/
def move (L : RingLinks α) (h n : α) : RingLinks α :=
  if L.next h = h then L.init n else L.split h (L.next h) n

section

variable (hL : Ring L h (ys ++ q :: zs))
include hL

theorem Ring.split_eq {n : α} (hn : n ∉ h :: (ys ++ q :: zs)) :
    L.split h q n =
      ⟨update (update (update L.next (L.prev h) n) n q) (L.prev q) h,
        update (update (update L.prev n (L.prev h)) h (L.prev q)) q n⟩ := by
  have hqn : q ≠ n := by
    rintro rfl
    simp at hn
  simp only [RingLinks.split, update_self, update_of_ne hqn]

theorem Ring.prev_head : L.prev h = zs.reverse.headD q := by
  have hhead := hL.prev.head
  cases hzs : zs.reverse with
  | nil | cons p ps => simpa [hzs] using hhead

theorem Ring.split {n : α} (hn : n ∉ h :: (ys ++ q :: zs)) :
    Ring (L.split h q n) n (q :: zs) ∧ Ring (L.split h q n) h ys := by
  have hnd : (h :: ys ++ q :: zs).Nodup := hL.nodup
  obtain ⟨hndys, hndzs, hdisj⟩ := nodup_append.mp hnd
  have hhq : h ≠ q := hdisj h mem_cons_self q mem_cons_self
  have hhn : h ≠ n := fun habs => hn (habs ▸ mem_cons_self)
  have hys : ∀ x ∈ h :: ys, x ≠ n ∧ x ≠ L.prev h ∧ x ≠ q := by
    intro x hx
    refine ⟨fun habs => hn (habs ▸ mem_append_left (q :: zs) hx), ?_, ?_⟩
    · rw [hL.prev_head]
      exact hdisj x hx _ (by simpa using headD_mem (h := q) zs.reverse)
    · exact hdisj x hx q mem_cons_self
  have hprev : L.prev q ∈ h :: ys := by
    rw [hL.prev_member]
    simpa using headD_mem (h := h) ys.reverse
  have hzs : ∀ x ∈ q :: zs, x ≠ n ∧ x ≠ L.prev q ∧ x ≠ h := by
    intro x hx
    refine ⟨fun habs => hn (habs ▸ mem_append_right (h :: ys) hx), ?_, ?_⟩
    · exact (hdisj _ hprev x hx).symm
    · exact (hdisj h mem_cons_self x hx).symm
  obtain ⟨hfront, hback⟩ := hL.next.split
  have hreverse : Cycle L.prev h (zs.reverse ++ q :: ys.reverse) := by
    have hcycle := hL.prev
    rwa [reverse_append, reverse_cons, append_assoc, singleton_append] at hcycle
  obtain ⟨hlast, hfirst⟩ := hreverse.split
  rw [hL.split_eq hn]
  constructor
  · constructor
    · exact nodup_cons.mpr ⟨fun hmem => (hzs n hmem).1 rfl, hndzs⟩
    · -- The members lead on as before, the last one to `n`.
      have hmap := map_update_last hndzs (by simpa using hback) (w := n)
      rw [← hL.prev_head] at hmap
      have hkeep : (q :: zs).map (update (update (update L.next
          (L.prev h) n) n q) (L.prev q) h) = (q :: zs).map (update L.next (L.prev h) n) := by
        apply map_congr_left
        intro x hx
        rw [update_of_ne (hzs x hx).2.1, update_of_ne (hzs x hx).1]
      have hnp : n ≠ L.prev q := fun habs => (hys _ hprev).1 habs.symm
      rw [Cycle, map_cons, hkeep, hmap]
      dsimp only
      rw [update_of_ne hnp, update_self]
      rfl
    · -- Backwards only the first member leads elsewhere.
      have hkeep : zs.reverse.map (update (update (update L.prev n
          (L.prev h)) h (L.prev q)) q n) = zs.reverse.map L.prev := by
        apply map_congr_left
        intro x hx
        have hmem : x ∈ q :: zs := mem_cons_of_mem q (mem_reverse.mp hx)
        have hxq : x ≠ q := by
          rintro rfl
          exact (nodup_cons.mp hndzs).1 (mem_reverse.mp hx)
        rw [update_of_ne hxq, update_of_ne (hzs x hmem).2.2,
          update_of_ne (hzs x hmem).1]
      have hnq : n ≠ q := fun habs => (hzs q mem_cons_self).1 habs.symm
      have hlast' := congrArg (· ++ [n]) hlast
      rw [Cycle, reverse_cons, map_cons, map_append, hkeep]
      simpa [update_of_ne hnq, update_of_ne hhn.symm] using hlast'
  · constructor
    · exact hndys
    · have hmap := map_update_last hndys hfront (w := h)
      rw [← hL.prev_member] at hmap
      rw [Cycle, ← hmap]
      apply map_congr_left
      intro x hx
      dsimp only
      by_cases hxp : x = L.prev q
      · rw [hxp, update_self, update_self]
      · rw [update_of_ne hxp, update_of_ne hxp,
          update_of_ne (hys x hx).1, update_of_ne (hys x hx).2.1]
    · have hkeep : ys.reverse.map (update (update (update L.prev n
          (L.prev h)) h (L.prev q)) q n) = ys.reverse.map L.prev := by
        apply map_congr_left
        intro x hx
        have hmem : x ∈ h :: ys := mem_cons_of_mem h (mem_reverse.mp hx)
        have hxh : x ≠ h := by
          rintro rfl
          exact (nodup_cons.mp hndys).1 (mem_reverse.mp hx)
        rw [update_of_ne (hys x hmem).2.2, update_of_ne hxh,
          update_of_ne (hys x hmem).1]
      rw [Cycle, map_cons, hkeep]
      dsimp only
      rw [update_of_ne hhq, update_self, hfirst]

/-- A split does not change a ring that neither the new head nor the old ring meets. -/
theorem Ring.split_of_disjoint {n : α}
    (hn : n ∉ h :: (ys ++ q :: zs)) (hL' : Ring L h' xs')
    (hdisj : ∀ x ∈ h' :: xs', x ≠ n ∧ x ∉ h :: (ys ++ q :: zs)) : Ring (L.split h q n) h' xs' := by
  have hprev := hL.neighbours.2
  have hlast := hL.last_mem
  have hq : q ∈ h :: (ys ++ q :: zs) := by simp
  rw [hL.split_eq hn]
  apply hL'.congr
  · intro x hx
    obtain ⟨hxn, hxh⟩ := hdisj x hx
    exact (update_of_ne (ne_of_mem_of_not_mem hprev hxh).symm ..).trans <|
      (update_of_ne hxn ..).trans <|
        update_of_ne (ne_of_mem_of_not_mem hlast hxh).symm ..
  · intro x hx
    obtain ⟨hxn, hxh⟩ := hdisj x hx
    exact (update_of_ne (ne_of_mem_of_not_mem hq hxh).symm ..).trans <|
      (update_of_ne (ne_of_mem_of_not_mem mem_cons_self hxh).symm ..).trans <|
        update_of_ne hxn ..

end

variable {n : α}

theorem Ring.move (hL : Ring L h xs) (hn : n ∉ h :: xs) :
    Ring (L.move h n) n xs ∧ Ring (L.move h n) h [] := by
  cases xs with
  | nil =>
    have hnext : L.next h = h := hL.next.head
    rw [RingLinks.move, if_pos hnext]
    exact ⟨ring_init, hL.init hn⟩
  | cons q xs =>
    have hnext : L.next h = q := hL.next.head
    have hne : q ≠ h := by
      rintro rfl
      simpa using hL.nodup
    rw [RingLinks.move, hnext, if_neg hne]
    exact hL.split hn

theorem Ring.add_eq (hL : Ring L h xs) (hL' : Ring L n ys) (hys : ys ≠ [])
    (hdisj : ∀ x ∈ h :: xs, x ∉ n :: ys) :
    L.add h n =
      ⟨update (update L.next (L.prev h) (L.next n)) (L.prev n) h,
        update (update L.prev (L.next n) (L.prev h)) h (L.prev n)⟩ := by
  have hn : n ≠ L.prev h := fun habs => hdisj _ hL.last_mem (habs ▸ mem_cons_self)
  have hfirst : n ≠ L.next n := by
    rw [hL'.next.head]
    cases ys with
    | nil => exact absurd rfl hys
    | cons y ys =>
      rintro heq
      exact (nodup_cons.mp hL'.nodup).1 (heq ▸ mem_cons_self)
  simp only [RingLinks.add, update_self, update_of_ne hn,
    update_of_ne hfirst]

theorem Ring.add (hL : Ring L h xs) (hL' : Ring L n ys) (hys : ys ≠ [])
    (hdisj : ∀ x ∈ h :: xs, x ∉ n :: ys) : Ring (L.add h n) h (xs ++ ys) := by
  rw [hL.add_eq hL' hys hdisj]
  have hlast := hL.prev.head
  obtain ⟨y, ys, rfl⟩ := exists_cons_of_ne_nil hys
  have hfirst : L.next n = y := hL'.next.head
  have hcons : Ring L n ([] ++ y :: ys) := hL'
  have hend : L.prev n = ys.reverse.headD y := hcons.prev_head
  have hmem : ∀ x ∈ y :: ys, x ∉ h :: xs := fun x hx habs => hdisj x habs (.tail n hx)
  have hendmem : L.prev n ∈ y :: ys := by
    rw [hend]
    simpa using headD_mem (h := y) ys.reverse
  rw [hfirst]
  constructor
  · refine nodup_append.mpr ⟨hL.nodup, hL'.nodup.of_cons, fun x hx z hz heq => ?_⟩
    exact hmem z hz (heq ▸ hx)
  · have hcycle : (h :: xs).map L.next = xs ++ [h] := hL.next
    have hxs := map_update_last hL.nodup hcycle (w := y)
    rw [← hlast] at hxs
    have hcycle' : (n :: y :: ys).map L.next = (y :: ys) ++ [n] := hL'.next
    rw [map_cons, cons_append, List.cons.injEq] at hcycle'
    have hyys := map_update_last hL'.nodup.of_cons hcycle'.2 (w := h)
    rw [← hend] at hyys
    have hleft : (h :: xs).map (update (update L.next (L.prev h) y) (L.prev n) h) =
        xs ++ [y] := by
      rw [← hxs]
      apply map_congr_left
      intro x hx
      exact update_of_ne (ne_of_mem_of_not_mem hx (hmem _ hendmem)) ..
    have hright : (y :: ys).map (update (update L.next (L.prev h) y)
        (L.prev n) h) = ys ++ [h] := by
      rw [← hyys]
      apply map_congr_left
      intro x hx
      by_cases hxe : x = L.prev n
      · rw [hxe, update_self, update_self]
      · rw [update_of_ne hxe, update_of_ne hxe, update_of_ne]
        exact fun habs => hmem x hx (habs ▸ hL.last_mem)
    rw [Cycle, ← cons_append, map_append]
    exact (congrArg₂ _ hleft hright).trans (by simp)
  · have hhy : h ∉ y :: ys := fun habs => hmem h habs mem_cons_self
    have hcycle : (n :: (y :: ys).reverse).map L.prev = (y :: ys).reverse ++ [n] := hL'.prev
    rw [reverse_cons, ← cons_append, map_append] at hcycle
    obtain ⟨hback, -⟩ := append_inj hcycle (by simp)
    have hkeep : ys.reverse.map (update (update L.prev y (L.prev h)) h
        (L.prev n)) = ys.reverse.map L.prev := by
      apply map_congr_left
      intro x hx
      have hxs : x ∈ ys := mem_reverse.mp hx
      have hxy : x ≠ y := by
        rintro rfl
        exact (nodup_cons.mp hL'.nodup.of_cons).1 hxs
      have hxh : x ≠ h := fun habs => hhy (habs ▸ mem_cons_of_mem y hxs)
      rw [update_of_ne hxh, update_of_ne hxy]
    have hkeep' : xs.reverse.map (update (update L.prev y (L.prev h)) h
        (L.prev n)) = xs.reverse.map L.prev := by
      apply map_congr_left
      intro x hx
      have hxs : x ∈ h :: xs := mem_cons_of_mem h (mem_reverse.mp hx)
      have hxh : x ≠ h := by
        rintro rfl
        exact (nodup_cons.mp hL.nodup).1 (mem_reverse.mp hx)
      have hxy : x ≠ y := fun habs => hmem y mem_cons_self (habs ▸ hxs)
      rw [update_of_ne hxh, update_of_ne hxy]
    have hyh : y ≠ h := fun habs => hhy (habs ▸ mem_cons_self)
    have hcycle' : L.prev h :: xs.reverse.map L.prev = xs.reverse ++ [h] := hL.prev
    rw [map_cons] at hback
    rw [Cycle, reverse_append, reverse_cons, map_cons, map_append,
      map_append, hkeep, hkeep', map_singleton]
    dsimp only
    rw [update_self, update_of_ne hyh, update_self, ← cons_append,
      ← cons_append, hback, append_assoc, singleton_append, hcycle']
    simp

theorem Ring.add_of_disjoint {zs : List α} (hL : Ring L h xs) (hL' : Ring L n ys)
    (hys : ys ≠ []) (hdisj : ∀ x ∈ h :: xs, x ∉ n :: ys) (hL'' : Ring L h' zs)
    (hother : ∀ x ∈ h' :: zs, x ∉ h :: xs ∧ x ∉ n :: ys) : Ring (L.add h n) h' zs := by
  have hfirst : L.next n ∈ n :: ys := by
    rw [hL'.next.head]
    exact headD_mem ys
  rw [hL.add_eq hL' hys hdisj]
  apply hL''.congr
  · intro x hx
    obtain ⟨hxh, hxn⟩ := hother x hx
    exact (update_of_ne (ne_of_mem_of_not_mem hL'.last_mem hxn).symm ..).trans <|
      update_of_ne (ne_of_mem_of_not_mem hL.last_mem hxh).symm ..
  · intro x hx
    obtain ⟨hxh, hxn⟩ := hother x hx
    exact (update_of_ne (ne_of_mem_of_not_mem mem_cons_self hxh).symm ..).trans <|
      update_of_ne (ne_of_mem_of_not_mem hfirst hxn).symm ..

omit [DecidableEq α] in
theorem Ring.links_eq (hL : Ring L h xs) (hL' : Ring L' h xs) :
    ∀ x ∈ h :: xs, L'.next x = L.next x ∧ L'.prev x = L.prev x := by
  have hnext : (h :: xs).map L'.next = (h :: xs).map L.next := hL'.next.trans hL.next.symm
  have hprev : (h :: xs.reverse).map L'.prev = (h :: xs.reverse).map L.prev :=
    hL'.prev.trans hL.prev.symm
  intro x hx
  exact ⟨map_inj_left.mp hnext x hx, map_inj_left.mp hprev x (by simpa using hx)⟩

end RingLinks
