import LibuvWorks.Lib.LevelOrder
import LibuvWorks.Heap.HeapInl

/-!
# The heap as a left-filled tree

`Numbered h n a` says that the pointers of `h` form the complete binary tree of
the `n` distinct nodes `a 1, …, a n` in level order.
-/
namespace LibuvWorks

open LevelOrder

variable {α : Type*}

/-! ## Reading the memory after a store -/

namespace Heap

variable [DecidableEq α] (h : Heap α) (x z : α) (v : Option α)

@[simp] theorem setNode_node (w : HeapNode α) :
    (h.setNode x w).node z = if z = x then w else h.node z := by
  simp [setNode, Function.update_apply]

@[simp] theorem setLeft_left :
    ((h.setLeft x v).node z).left = if z = x then v else (h.node z).left := by
  by_cases hz : z = x <;> simp [setLeft, hz]

@[simp] theorem setLeft_right : ((h.setLeft x v).node z).right = (h.node z).right := by
  by_cases hz : z = x <;> simp [setLeft, hz]

@[simp] theorem setLeft_parent : ((h.setLeft x v).node z).parent = (h.node z).parent := by
  by_cases hz : z = x <;> simp [setLeft, hz]

@[simp] theorem setRight_left : ((h.setRight x v).node z).left = (h.node z).left := by
  by_cases hz : z = x <;> simp [setRight, hz]

@[simp] theorem setRight_right :
    ((h.setRight x v).node z).right = if z = x then v else (h.node z).right := by
  by_cases hz : z = x <;> simp [setRight, hz]

@[simp] theorem setRight_parent : ((h.setRight x v).node z).parent = (h.node z).parent := by
  by_cases hz : z = x <;> simp [setRight, hz]

@[simp] theorem setParent_left : ((h.setParent x v).node z).left = (h.node z).left := by
  by_cases hz : z = x <;> simp [setParent, hz]

@[simp] theorem setParent_right : ((h.setParent x v).node z).right = (h.node z).right := by
  by_cases hz : z = x <;> simp [setParent, hz]

@[simp] theorem setParent_parent :
    ((h.setParent x v).node z).parent = if z = x then v else (h.node z).parent := by
  by_cases hz : z = x <;> simp [setParent, hz]

@[simp] theorem setParent?_left (x : Option α) :
    ((h.setParent? x v).node z).left = (h.node z).left := by
  cases x <;> simp [setParent?]

@[simp] theorem setParent?_right (x : Option α) :
    ((h.setParent? x v).node z).right = (h.node z).right := by
  cases x <;> simp [setParent?]

@[simp] theorem setParent?_parent (x : Option α) :
    ((h.setParent? x v).node z).parent = if x = some z then v else (h.node z).parent := by
  cases x <;> simp [setParent?, eq_comm]

@[simp] theorem relink_left (p : Option α) (old new : α) :
    ((h.relink p old new).node z).left =
      if p = some z ∧ (h.node z).left = some old then some new else (h.node z).left := by
  cases p with
  | none => simp [relink]
  | some p =>
    by_cases hz : z = p
    · subst hz; by_cases hl : (h.node z).left = some old <;> simp [relink, hl]
    · by_cases hl : (h.node p).left = some old <;> simp [relink, hl, hz, Ne.symm hz]

@[simp] theorem relink_right (p : Option α) (old new : α) :
    ((h.relink p old new).node z).right =
      if p = some z ∧ (h.node z).left ≠ some old then some new else (h.node z).right := by
  cases p with
  | none => simp [relink]
  | some p =>
    by_cases hz : z = p
    · subst hz; by_cases hl : (h.node z).left = some old <;> simp [relink, hl]
    · by_cases hl : (h.node p).left = some old <;> simp [relink, hl, hz, Ne.symm hz]

@[simp] theorem relink_parent (p : Option α) (old new : α) :
    ((h.relink p old new).node z).parent = (h.node z).parent := by
  cases p with
  | none => simp [relink]
  | some p => by_cases hl : (h.node p).left = some old <;> simp [relink, hl]

@[simp] theorem set_left (l : Link α) :
    ((h.set l v).node z).left = if l = .left z then v else (h.node z).left := by
  cases l <;> simp [set, eq_comm]

@[simp] theorem set_right (l : Link α) :
    ((h.set l v).node z).right = if l = .right z then v else (h.node z).right := by
  cases l <;> simp [set, eq_comm]

@[simp] theorem set_parent (l : Link α) : ((h.set l v).node z).parent = (h.node z).parent := by
  cases l <;> simp [set]

@[simp] theorem set_min (l : Link α) : (h.set l v).min = if l = .min then v else h.min := by
  cases l <;> simp [set, setLeft, setRight, setNode]

@[simp] theorem set_nelts (l : Link α) : (h.set l v).nelts = h.nelts := by
  cases l <;> rfl

@[simp] theorem relink_min (p : Option α) (old new : α) :
    (h.relink p old new).min = if p = none then some new else h.min := by
  cases p with
  | none => rfl
  | some p => by_cases hl : (h.node p).left = some old <;> simp [relink, hl, setLeft, setRight, setNode]

@[simp] theorem relink_nelts (p : Option α) (old new : α) :
    (h.relink p old new).nelts = h.nelts := by
  cases p with
  | none => rfl
  | some p => by_cases hl : (h.node p).left = some old <;> simp [relink, hl, setLeft, setRight, setNode]

@[simp] theorem setNode_min (w : HeapNode α) : (h.setNode x w).min = h.min := rfl
@[simp] theorem setLeft_min : (h.setLeft x v).min = h.min := rfl
@[simp] theorem setRight_min : (h.setRight x v).min = h.min := rfl
@[simp] theorem setParent_min : (h.setParent x v).min = h.min := rfl
@[simp] theorem setNode_nelts (w : HeapNode α) : (h.setNode x w).nelts = h.nelts := rfl
@[simp] theorem setLeft_nelts : (h.setLeft x v).nelts = h.nelts := rfl
@[simp] theorem setRight_nelts : (h.setRight x v).nelts = h.nelts := rfl
@[simp] theorem setParent_nelts : (h.setParent x v).nelts = h.nelts := rfl

@[simp] theorem setParent?_min (x : Option α) : (h.setParent? x v).min = h.min := by
  cases x <;> rfl

@[simp] theorem setParent?_nelts (x : Option α) : (h.setParent? x v).nelts = h.nelts := by
  cases x <;> rfl

end Heap

@[simp] theorem heapNodeSwap_nelts [DecidableEq α] (h : Heap α) (x y : α) :
    (heapNodeSwap h x y).nelts = h.nelts := by
  simp only [heapNodeSwap, Heap.relink_nelts, Heap.setParent?_nelts]
  split_ifs <;> simp

/-! ## The shape -/

/-- The node at position `k`, if there is one. -/
def entry (n : ℕ) (a : ℕ → α) (k : ℕ) : Option α :=
  if 1 ≤ k ∧ k ≤ n then some (a k) else none

/-- The pointers of `h` are the complete left-filled binary tree of the distinct
nodes `a 1, …, a n`, and parent and child pointers agree. -/
structure Numbered (h : Heap α) (n : ℕ) (a : ℕ → α) : Prop where
  inj : ∀ i j, 1 ≤ i → i ≤ n → 1 ≤ j → j ≤ n → a i = a j → i = j
  min : h.min = entry n a 1
  left : ∀ i, 1 ≤ i → i ≤ n → (h.node (a i)).left = entry n a (2 * i)
  right : ∀ i, 1 ≤ i → i ≤ n → (h.node (a i)).right = entry n a (2 * i + 1)
  parent : ∀ i, 1 ≤ i → i ≤ n → (h.node (a i)).parent = entry n a (i / 2)

variable {h : Heap α} {n p c : ℕ} {a : ℕ → α} {k : ℕ}

theorem entry_of_le (h1 : 1 ≤ k) (hk : k ≤ n) : entry n a k = some (a k) :=
  if_pos ⟨h1, hk⟩

theorem entry_of_lt (hk : n < k) : entry n a k = none :=
  if_neg (by omega)

@[simp] theorem entry_zero : entry n a 0 = none := if_neg (by omega)

theorem Numbered.eq_iff (H : Numbered h n a) {i j : ℕ} (hi : 1 ≤ i ∧ i ≤ n)
    (hj : 1 ≤ j ∧ j ≤ n) : a i = a j ↔ i = j :=
  ⟨H.inj i j hi.1 hi.2 hj.1 hj.2, fun e => e ▸ rfl⟩

theorem Numbered.entry_eq_some (H : Numbered h n a) {j : ℕ} (hj : 1 ≤ j ∧ j ≤ n) :
    entry n a k = some (a j) ↔ k = j := by
  constructor
  · intro he
    by_cases hk : 1 ≤ k ∧ k ≤ n
    · rw [entry, if_pos hk, Option.some.injEq] at he
      exact (H.eq_iff hk hj).mp he
    · rw [entry, if_neg hk] at he
      cases he
  · rintro rfl
    exact entry_of_le hj.1 hj.2

theorem entry_swapAt_of_ne (hp : k ≠ p) (hc : k ≠ c) : entry n (swapAt a p c) k = entry n a k := by
  rw [entry, entry, swapAt_of_ne a hp hc]

/-! ## Exchanging a parent with its child -/

section Swap

variable [DecidableEq α] {x y : α} (hxy : x ≠ y)
include hxy

theorem heapNodeSwap_parent (z : α) : ((heapNodeSwap h x y).node z).parent =
    if (h.node y).right = some z then some x
    else if (h.node y).left = some z then some x
    else if (if (h.node x).left = some y then (h.node x).right else (h.node x).left) = some z
      then some y
    else if z = x then some y else if z = y then (h.node x).parent else (h.node z).parent := by
  by_cases hl : (h.node x).left = some y <;>
    by_cases hzx : z = x <;> by_cases hzy : z = y <;>
    simp [heapNodeSwap, hl, hxy, hzx, hzy, Ne.symm hxy]

variable (hs : (if (h.node x).left = some y then (h.node x).right else (h.node x).left) ≠ some y)
  (hyl : (h.node y).left ≠ some y) (hyr : (h.node y).right ≠ some y)
  (hgx : (h.node x).parent ≠ some x) (hgy : (h.node x).parent ≠ some y)
include hs hyl hyr

theorem heapNodeSwap_parent_child : ((heapNodeSwap h x y).node y).parent = (h.node x).parent := by
  rw [heapNodeSwap_parent hxy]
  simp [hs, hyl, hyr, Ne.symm hxy]

theorem heapNodeSwap_min :
    (heapNodeSwap h x y).min = if (h.node x).parent = none then some y else h.min := by
  have hp := heapNodeSwap_parent_child hxy hs hyl hyr
  simp only [heapNodeSwap, Heap.relink_parent, Heap.relink_min] at hp ⊢
  rw [hp]
  by_cases hl : (h.node x).left = some y <;> simp [hl]

include hgx hgy

theorem heapNodeSwap_left (z : α) : ((heapNodeSwap h x y).node z).left =
    if z = y then if (h.node x).left = some y then some x else (h.node x).left
    else if z = x then (h.node y).left
    else if (h.node x).parent = some z ∧ (h.node z).left = some x then some y
    else (h.node z).left := by
  have hp := heapNodeSwap_parent_child hxy hs hyl hyr
  simp only [heapNodeSwap, Heap.relink_parent, Heap.relink_left] at hp ⊢
  rw [hp]
  by_cases hl : (h.node x).left = some y <;> by_cases hzx : z = x <;> by_cases hzy : z = y <;>
    simp [hl, hxy, hzx, hzy, hgx, hgy]

theorem heapNodeSwap_right (z : α) : ((heapNodeSwap h x y).node z).right =
    if z = y then if (h.node x).left = some y then (h.node x).right else some x
    else if z = x then (h.node y).right
    else if (h.node x).parent = some z ∧ (h.node z).left ≠ some x then some y
    else (h.node z).right := by
  have hp := heapNodeSwap_parent_child hxy hs hyl hyr
  simp only [heapNodeSwap, Heap.relink_parent, Heap.relink_right] at hp ⊢
  rw [hp]
  by_cases hl : (h.node x).left = some y <;> by_cases hzx : z = x <;> by_cases hzy : z = y <;>
    simp [hl, hxy, hzx, hzy, hgx, hgy]

end Swap

theorem Numbered.swap [DecidableEq α] (H : Numbered h n a) (hp : 1 ≤ p) (hc : c / 2 = p)
    (hcn : c ≤ n) :
    Numbered (heapNodeSwap h (a p) (a c)) n (swapAt a p c) := by
  have hpn : 1 ≤ p ∧ p ≤ n := by omega
  have hcc : 1 ≤ c ∧ c ≤ n := by omega
  have hxy : a p ≠ a c := fun e => by have := (H.eq_iff hpn hcc).mp e; omega
  have hl : (h.node (a p)).left = some (a c) ↔ 2 * p = c := by
    rw [H.left p hp hpn.2, H.entry_eq_some hcc]
  have hyl : (h.node (a c)).left ≠ some (a c) := by
    rw [H.left c hcc.1 hcn, ne_eq, H.entry_eq_some hcc]; omega
  have hyr : (h.node (a c)).right ≠ some (a c) := by
    rw [H.right c hcc.1 hcn, ne_eq, H.entry_eq_some hcc]; omega
  have hgx : (h.node (a p)).parent ≠ some (a p) := by
    rw [H.parent p hp hpn.2, ne_eq, H.entry_eq_some hpn]; omega
  have hgy : (h.node (a p)).parent ≠ some (a c) := by
    rw [H.parent p hp hpn.2, ne_eq, H.entry_eq_some hcc]; omega
  have hat : ∀ i, 1 ≤ i → i ≤ n →
      (i = p ∧ swapAt a p c i = a c) ∨ (i = c ∧ swapAt a p c i = a p) ∨
        (i ≠ p ∧ i ≠ c ∧ swapAt a p c i = a i) := by
    intro i _ _
    by_cases hip : i = p
    · exact .inl ⟨hip, hip ▸ swapAt_left a p c⟩
    · by_cases hic : i = c
      · exact .inr (.inl ⟨hic, hic ▸ swapAt_right a p c⟩)
      · exact .inr (.inr ⟨hip, hic, swapAt_of_ne a hip hic⟩)
  have hne : ∀ i, 1 ≤ i → i ≤ n → i ≠ p → i ≠ c → a i ≠ a p ∧ a i ≠ a c := by
    intro i h1 hi hip hic
    exact ⟨fun e => hip ((H.eq_iff ⟨h1, hi⟩ hpn).mp e), fun e => hic ((H.eq_iff ⟨h1, hi⟩ hcc).mp e)⟩
  have hsib : ∀ j, 1 ≤ j → j ≤ n → ((if (h.node (a p)).left = some (a c) then
      (h.node (a p)).right else (h.node (a p)).left) = some (a j) ↔ j / 2 = p ∧ j ≠ c) := by
    intro j h1 hj
    by_cases h2 : 2 * p = c
    · rw [if_pos (hl.mpr h2), H.right p hp hpn.2, H.entry_eq_some ⟨h1, hj⟩]; omega
    · rw [if_neg (mt hl.mp h2), H.left p hp hpn.2, H.entry_eq_some ⟨h1, hj⟩]; omega
  have hs : (if (h.node (a p)).left = some (a c) then (h.node (a p)).right
      else (h.node (a p)).left) ≠ some (a c) := fun hb => ((hsib c hcc.1 hcn).mp hb).2 rfl
  have hatp : entry n (swapAt a p c) p = some (a c) := by
    rw [entry_of_le hp hpn.2, swapAt_left]
  have hatc : entry n (swapAt a p c) c = some (a p) := by
    rw [entry_of_le hcc.1 hcn, swapAt_right]
  constructor
  · intro i j h1 hi h2 hj e
    apply (Equiv.swap p c).injective
    refine H.inj _ _ ?_ ?_ ?_ ?_ e <;> rw [Equiv.swap_apply_def] <;> split_ifs <;> omega
  · rw [heapNodeSwap_min hxy hs hyl hyr, H.parent p hp hpn.2, H.min]
    by_cases hp1 : p = 1
    · subst hp1
      rw [if_pos entry_zero, hatp]
    · rw [entry_of_le (by omega) (by omega), if_neg (by simp),
        entry_swapAt_of_ne (by omega) (by omega)]
  · intro i h1 hi
    rw [heapNodeSwap_left hxy hs hyl hyr hgx hgy]
    obtain ⟨rfl, e⟩ | ⟨rfl, e⟩ | ⟨hip, hic, e⟩ := hat i h1 hi
    · rw [e, if_pos rfl]
      by_cases h2 : 2 * i = c
      · rw [if_pos (hl.mpr h2), h2, hatc]
      · rw [if_neg (mt hl.mp h2), H.left i h1 hi, entry_swapAt_of_ne (by omega) h2]
    · rw [e, if_neg hxy, if_pos rfl, H.left i h1 hi, entry_swapAt_of_ne (by omega) (by omega)]
    · rw [e, if_neg (hne i h1 hi hip hic).2, if_neg (hne i h1 hi hip hic).1]
      simp only [H.parent p hp hpn.2, H.entry_eq_some ⟨h1, hi⟩, H.left i h1 hi, H.entry_eq_some hpn]
      split_ifs with h2
      · rw [h2.2, hatp]
      · rw [entry_swapAt_of_ne (by omega) (by omega)]
  · intro i h1 hi
    rw [heapNodeSwap_right hxy hs hyl hyr hgx hgy]
    obtain ⟨rfl, e⟩ | ⟨rfl, e⟩ | ⟨hip, hic, e⟩ := hat i h1 hi
    · rw [e, if_pos rfl]
      by_cases h2 : 2 * i = c
      · rw [if_pos (hl.mpr h2), H.right i h1 hi, entry_swapAt_of_ne (by omega) (by omega)]
      · rw [if_neg (mt hl.mp h2), show 2 * i + 1 = c by omega, hatc]
    · rw [e, if_neg hxy, if_pos rfl, H.right i h1 hi, entry_swapAt_of_ne (by omega) (by omega)]
    · rw [e, if_neg (hne i h1 hi hip hic).2, if_neg (hne i h1 hi hip hic).1]
      simp only [H.parent p hp hpn.2, H.entry_eq_some ⟨h1, hi⟩, H.left i h1 hi, ne_eq,
        H.entry_eq_some hpn, H.right i h1 hi]
      split_ifs with h2
      · rw [show 2 * i + 1 = p by omega, hatp]
      · rw [entry_swapAt_of_ne (by omega) (by omega)]
  · intro i h1 hi
    rw [heapNodeSwap_parent hxy]
    obtain ⟨rfl, e⟩ | ⟨rfl, e⟩ | ⟨hip, hic, e⟩ := hat i h1 hi
    · rw [e, if_neg hyr, if_neg hyl, if_neg hs, if_neg hxy.symm, if_pos rfl, H.parent i h1 hi,
        entry_swapAt_of_ne (by omega) (by omega)]
    · have hr : (h.node (a i)).right ≠ some (a p) := by
        rw [H.right i h1 hi, ne_eq, H.entry_eq_some hpn]; omega
      have hll : (h.node (a i)).left ≠ some (a p) := by
        rw [H.left i h1 hi, ne_eq, H.entry_eq_some hpn]; omega
      rw [e, if_neg hr, if_neg hll, if_neg fun hb => by have := (hsib p hp hpn.2).mp hb; omega,
        if_pos rfl, hc, hatp]
    · rw [e, if_neg (hne i h1 hi hip hic).2, if_neg (hne i h1 hi hip hic).1, H.parent i h1 hi]
      simp only [hsib i h1 hi, H.left c hcc.1 hcn, H.right c hcc.1 hcn, H.entry_eq_some ⟨h1, hi⟩]
      split_ifs with h2 h3 h4
      · rw [show i / 2 = c by omega, hatc]
      · rw [show i / 2 = c by omega, hatc]
      · rw [h4.1, hatp]
      · rw [entry_swapAt_of_ne (by omega) (by omega)]

end LibuvWorks
