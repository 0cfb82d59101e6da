import LibuvWorks.Heap.Shape

/-!
# The descent along the path bits

`heapPath` reads the binary digits of a position; following them from the root
ends at the link of that position. Linking and unlinking the last position, and
putting another node in the place of a member, keep the numbering.
-/
namespace LibuvWorks

open Nat
open Function (update update_of_ne update_self)
open LevelOrder

variable {α : Type*} {h : Heap α} {n p : ℕ} {a : ℕ → α}

/-- The link that holds the node at position `k`. -/
def linkAt (a : ℕ → α) (k : ℕ) : Link α :=
  if k ≤ 1 then .min else if k % 2 = 1 then .right (a (k / 2)) else .left (a (k / 2))

/-- The position reached from position `q` by `k` path bits. -/
def walkBits : (k path q : ℕ) → ℕ
  | 0, _, q => q
  | k + 1, path, q => walkBits k (path >>> 1) (2 * q + path % 2)

theorem two_mul_le_walkBits (k path q : ℕ) : 2 * q ≤ walkBits (k + 1) path q := by
  induction k generalizing path q with
  | zero => simp [walkBits]
  | succ k ih =>
    have := ih (path >>> 1) (2 * q + path % 2)
    rw [walkBits]
    omega

theorem shiftLeft_or_bit (path b : ℕ) : (path <<< 1 ||| (b &&& 1)) = 2 * path + b % 2 := by
  rw [and_one_is_mod, ← shiftLeft_add_eq_or_of_lt (by omega)]
  omega

/-- The loop invariant of the path computation: the bits collected so far lead from
the rest of the position to the whole of it. -/
theorem heapPath_spec (fuel path k m : ℕ) (hk : k + fuel = 32) (hm : 1 ≤ m)
    (hfuel : m < 2 ^ fuel) (hpath : path < 2 ^ k) :
    walkBits (heapPath fuel path k m).2 (heapPath fuel path k m).1 1 = walkBits k path m := by
  induction fuel generalizing path k m with
  | zero => simp at hfuel; omega
  | succ fuel ih =>
    by_cases h2 : 2 ≤ m
    · have hle : 2 ^ (k + 1) ≤ 2 ^ 32 := Nat.pow_le_pow_right (by omega) (by omega)
      have hno : toUint (path <<< 1) = path <<< 1 := by
        rw [toUint]
        omega
      have hbits : (2 * path + m % 2) >>> 1 = path := by rw [shiftRight_eq_div_pow]; omega
      rw [heapPath, if_pos h2, hno, shiftLeft_or_bit, ih _ _ _ (by omega) (by omega) (by omega)
        (by omega), walkBits, hbits]
      congr 1
      omega
    · obtain rfl : m = 1 := by omega
      rw [heapPath, if_neg h2]

variable (H : Numbered h n a)
include H

variable {k : ℕ}

theorem Numbered.get_linkAt (hk : 1 ≤ k) (hkn : k / 2 ≤ n) :
    h.get (linkAt a k) = entry n a k := by
  rcases Nat.lt_or_ge k 2 with h1 | h2
  · obtain rfl : k = 1 := by omega
    exact H.min
  · rw [linkAt, if_neg (by omega)]
    split_ifs with hodd
    · rw [Heap.get, H.right _ (by omega) hkn]
      congr 1
      omega
    · rw [Heap.get, H.left _ (by omega) hkn]
      congr 1
      omega

theorem Numbered.descend (k path q : ℕ) (hq : 1 ≤ q) (hle : walkBits k path q ≤ n + 1) :
    heapDescend h k path (linkAt a (q / 2)) (linkAt a q) =
      some (linkAt a (walkBits k path q / 2), linkAt a (walkBits k path q)) := by
  induction k generalizing path q with
  | zero => rfl
  | succ k ih =>
    have hqn : q ≤ n := by have := two_mul_le_walkBits k path q; omega
    have hhalf : (2 * q + path % 2) / 2 = q := by omega
    have hnext : (if path &&& 1 = 1 then Link.right (a q) else .left (a q)) =
        linkAt a (2 * q + path % 2) := by
      have hodd : (2 * q + path % 2) % 2 = path % 2 := by omega
      have hroot : ¬ 2 * q + path % 2 ≤ 1 := by omega
      rw [and_one_is_mod, linkAt, if_neg hroot, hhalf, hodd]
    rw [heapDescend, H.get_linkAt hq (by omega), entry_of_le hq hqn, Option.bind_eq_bind,
      Option.bind_some, hnext]
    have hrest := ih (path >>> 1) (2 * q + path % 2) (by omega) hle
    rwa [hhalf] at hrest

theorem Numbered.locate {m : ℕ} (hm : 1 ≤ m) (hmn : m ≤ n + 1) (hlt : m < 2 ^ 32) :
    heapLocate h m = some (linkAt a (m / 2), linkAt a m) := by
  have hw : walkBits (heapPath 32 0 0 m).2 (heapPath 32 0 0 m).1 1 = m :=
    heapPath_spec 32 0 0 m rfl hm hlt (by omega)
  have hd := H.descend (heapPath 32 0 0 m).2 (heapPath 32 0 0 m).1 1 le_rfl (by omega)
  rw [hw] at hd
  exact hd

omit H

/-! ## Linking and unlinking the last position -/

theorem linkAt_eq_min : linkAt a k = .min ↔ k ≤ 1 := by
  rw [linkAt]
  split_ifs with h1 h2 <;> simp [h1]

theorem linkAt_eq_left {z : α} :
    linkAt a k = .left z ↔ 2 ≤ k ∧ k % 2 = 0 ∧ a (k / 2) = z := by
  rw [linkAt]
  split_ifs with h1 h2
  · simp only [false_iff]; omega
  · simp only [false_iff]; omega
  · rw [Link.left.injEq]
    exact ⟨fun e => ⟨by omega, by omega, e⟩, fun e => e.2.2⟩

theorem linkAt_eq_right {z : α} :
    linkAt a k = .right z ↔ 2 ≤ k ∧ k % 2 = 1 ∧ a (k / 2) = z := by
  rw [linkAt]
  split_ifs with h1 h2
  · simp only [false_iff]; omega
  · rw [Link.right.injEq]
    exact ⟨fun e => ⟨by omega, h2, e⟩, fun e => e.2.2⟩
  · simp only [false_iff]; omega

theorem Numbered.linkAt_eq_left (H : Numbered h n a) {i k : ℕ} (hi : 1 ≤ i ∧ i ≤ n)
    (hk : k / 2 ≤ n) : linkAt a k = .left (a i) ↔ k = 2 * i := by
  rw [LibuvWorks.linkAt_eq_left]
  constructor
  · rintro ⟨h2, heven, e⟩
    have := (H.eq_iff ⟨by omega, hk⟩ hi).mp e
    omega
  · rintro rfl
    exact ⟨by omega, by omega, by rw [Nat.mul_div_cancel_left i (by omega)]⟩

theorem Numbered.linkAt_eq_right (H : Numbered h n a) {i k : ℕ} (hi : 1 ≤ i ∧ i ≤ n)
    (hk : k / 2 ≤ n) : linkAt a k = .right (a i) ↔ k = 2 * i + 1 := by
  rw [LibuvWorks.linkAt_eq_right]
  constructor
  · rintro ⟨h2, hodd, e⟩
    have := (H.eq_iff ⟨by omega, hk⟩ hi).mp e
    omega
  · rintro rfl
    exact ⟨by omega, by omega, by rw [show (2 * i + 1) / 2 = i by omega]⟩

theorem Numbered.of_nodes {g : Heap α} (H : Numbered h n a) (hmin : g.min = h.min)
    (hnode : ∀ i, 1 ≤ i → i ≤ n → g.node (a i) = h.node (a i)) : Numbered g n a where
  inj := H.inj
  min := hmin.trans H.min
  left i h1 hi := by rw [hnode i h1 hi, H.left i h1 hi]
  right i h1 hi := by rw [hnode i h1 hi, H.right i h1 hi]
  parent i h1 hi := by rw [hnode i h1 hi, H.parent i h1 hi]

theorem entry_update_of_ne {k q : ℕ} {x : α} (hk : k ≠ q) :
    entry n (update a q x) k = entry n a k := by
  rw [entry, entry, update_of_ne hk]

theorem entry_succ_of_ne (hk : k ≠ n + 1) : entry (n + 1) a k = entry n a k := by
  rw [entry]
  congr 1
  rw [eq_iff_iff]; omega

theorem update_inj {m q : ℕ} {x : α}
    (hinj : ∀ i j, 1 ≤ i → i ≤ m → 1 ≤ j → j ≤ m → i ≠ q → j ≠ q → a i = a j → i = j)
    (hfresh : ∀ i, 1 ≤ i → i ≤ m → i ≠ q → a i ≠ x) :
    ∀ i j, 1 ≤ i → i ≤ m → 1 ≤ j → j ≤ m →
      update a q x i = update a q x j → i = j := by
  intro i j h1 hi h2 hj e
  by_cases hiq : i = q <;> by_cases hjq : j = q
  · rw [hiq, hjq]
  · rw [hiq, update_self, update_of_ne hjq] at e
    exact absurd e.symm (hfresh j h2 hj hjq)
  · rw [hjq, update_self, update_of_ne hiq] at e
    exact absurd e (hfresh i h1 hi hiq)
  · rw [update_of_ne hiq, update_of_ne hjq] at e
    exact hinj i j h1 hi h2 hj hiq hjq e

variable [DecidableEq α] {x : α}

/-- A node outside the tree becomes its last node when the link of the next
position is pointed to it. -/
theorem Numbered.append (H : Numbered h n a) (hfresh : ∀ i, 1 ≤ i → i ≤ n → a i ≠ x)
    (hx : h.node x = ⟨none, none, none⟩) :
    Numbered ((h.setParent x (h.get (linkAt a ((n + 1) / 2)))).set (linkAt a (n + 1)) (some x))
      (n + 1) (update a (n + 1) x) := by
  have hlast : entry (n + 1) (update a (n + 1) x) (n + 1) = some x := by
    rw [entry_of_le (by omega) le_rfl, update_self]
  have hentry : ∀ k, k ≠ n + 1 → entry (n + 1) (update a (n + 1) x) k = entry n a k :=
    fun k hk => by rw [entry_succ_of_ne hk, entry_update_of_ne hk]
  have hxl : linkAt a (n + 1) ≠ .left x := by
    rw [ne_eq, LibuvWorks.linkAt_eq_left]
    exact fun ⟨h2, _, e⟩ => hfresh _ (by omega) (by omega) e
  have hxr : linkAt a (n + 1) ≠ .right x := by
    rw [ne_eq, LibuvWorks.linkAt_eq_right]
    exact fun ⟨h2, _, e⟩ => hfresh _ (by omega) (by omega) e
  constructor
  · exact update_inj (fun i j h1 hi h2 hj hin hjn => H.inj i j h1 (by omega) h2 (by omega))
      fun i h1 hi hin => hfresh i h1 (by omega)
  · rw [Heap.set_min, Heap.setParent_min, H.min]
    by_cases hn : n = 0
    · subst hn
      rw [if_pos (linkAt_eq_min.mpr le_rfl), hlast]
    · rw [if_neg (by rw [linkAt_eq_min]; omega), hentry 1 (by omega)]
  · intro i h1 hi
    rw [Heap.set_left, Heap.setParent_left]
    by_cases hin : i = n + 1
    · rw [hin, update_self, hx, if_neg hxl, entry_of_lt (by omega)]
    · rw [update_of_ne hin, H.left i h1 (by omega)]
      by_cases h2 : n + 1 = 2 * i
      · rw [if_pos ((H.linkAt_eq_left ⟨h1, by omega⟩ (by omega)).mpr h2), ← h2, hlast]
      · rw [if_neg (mt (H.linkAt_eq_left ⟨h1, by omega⟩ (by omega)).mp h2), hentry _ (Ne.symm h2)]
  · intro i h1 hi
    rw [Heap.set_right, Heap.setParent_right]
    by_cases hin : i = n + 1
    · rw [hin, update_self, hx, if_neg hxr, entry_of_lt (by omega)]
    · rw [update_of_ne hin, H.right i h1 (by omega)]
      by_cases h2 : n + 1 = 2 * i + 1
      · rw [if_pos ((H.linkAt_eq_right ⟨h1, by omega⟩ (by omega)).mpr h2), ← h2, hlast]
      · rw [if_neg (mt (H.linkAt_eq_right ⟨h1, by omega⟩ (by omega)).mp h2), hentry _ (Ne.symm h2)]
  · intro i h1 hi
    rw [Heap.set_parent, Heap.setParent_parent, hentry _ (by omega)]
    by_cases hin : i = n + 1
    · rw [hin, update_self, if_pos rfl]
      by_cases hn : n = 0
      · subst hn
        exact H.min
      · exact H.get_linkAt (by omega) (by omega)
    · rw [update_of_ne hin, if_neg (hfresh i h1 (by omega)), H.parent i h1 (by omega)]

/-- Clearing the link of the last position takes the last node out of the tree. -/
theorem Numbered.unlink (H : Numbered h (n + 1) a) :
    Numbered (h.set (linkAt a (n + 1)) none) n a where
  inj i j h1 hi h2 hj := H.inj i j h1 (by omega) h2 (by omega)
  min := by
    rw [Heap.set_min, H.min]
    by_cases hn : n = 0
    · rw [hn, if_pos (linkAt_eq_min.mpr le_rfl), entry_of_lt (by omega)]
    · rw [if_neg (by rw [linkAt_eq_min]; omega), entry_succ_of_ne (by omega)]
  left i h1 hi := by
    rw [Heap.set_left, H.left i h1 (by omega)]
    by_cases h2 : n + 1 = 2 * i
    · rw [if_pos ((H.linkAt_eq_left ⟨h1, by omega⟩ (by omega)).mpr h2), entry_of_lt (by omega)]
    · rw [if_neg (mt (H.linkAt_eq_left ⟨h1, by omega⟩ (by omega)).mp h2),
        entry_succ_of_ne (Ne.symm h2)]
  right i h1 hi := by
    rw [Heap.set_right, H.right i h1 (by omega)]
    by_cases h2 : n + 1 = 2 * i + 1
    · rw [if_pos ((H.linkAt_eq_right ⟨h1, by omega⟩ (by omega)).mpr h2), entry_of_lt (by omega)]
    · rw [if_neg (mt (H.linkAt_eq_right ⟨h1, by omega⟩ (by omega)).mp h2),
        entry_succ_of_ne (Ne.symm h2)]
  parent i h1 hi := by
    rw [Heap.set_parent, H.parent i h1 (by omega), entry_succ_of_ne (by omega)]

/-! ## Putting another node in the place of a member -/

theorem heapReplace_parent (y z : α) : ((heapReplace h y x).node z).parent =
    if (h.node y).right = some z then some x else if (h.node y).left = some z then some x
    else if z = x then (h.node y).parent else (h.node z).parent := by
  by_cases hzx : z = x <;> simp [heapReplace, hzx]

section Replace

variable {y : α} (hxy : x ≠ y) (hl : (h.node y).left ≠ some y) (hr : (h.node y).right ≠ some y)
include hxy hl hr

theorem heapReplace_min :
    (heapReplace h y x).min = if (h.node y).parent = none then some x else h.min := by
  simp [heapReplace, hxy.symm, hl, hr]

variable (hpx : (h.node y).parent ≠ some x)
include hpx

theorem heapReplace_left (z : α) : ((heapReplace h y x).node z).left =
    if z = x then (h.node y).left
    else if (h.node y).parent = some z ∧ (h.node z).left = some y then some x
    else (h.node z).left := by
  by_cases hzx : z = x <;> simp [heapReplace, hzx, hxy.symm, hl, hr, hpx]

theorem heapReplace_right (z : α) : ((heapReplace h y x).node z).right =
    if z = x then (h.node y).right
    else if (h.node y).parent = some z ∧ (h.node z).left ≠ some y then some x
    else (h.node z).right := by
  by_cases hzx : z = x <;> simp [heapReplace, hzx, hxy.symm, hl, hr, hpx]

end Replace

theorem Numbered.replace (H : Numbered h n a) (hp : 1 ≤ p ∧ p ≤ n)
    (hfresh : ∀ i, 1 ≤ i → i ≤ n → a i ≠ x) :
    Numbered (heapReplace h (a p) x) n (update a p x) := by
  have hxy : x ≠ a p := (hfresh p hp.1 hp.2).symm
  have hl : (h.node (a p)).left ≠ some (a p) := by
    rw [H.left p hp.1 hp.2, ne_eq, H.entry_eq_some hp]; omega
  have hr : (h.node (a p)).right ≠ some (a p) := by
    rw [H.right p hp.1 hp.2, ne_eq, H.entry_eq_some hp]; omega
  have hnone : ∀ k, entry n a k ≠ some x := by
    intro k
    rw [entry]
    split_ifs with h2
    · exact fun e => hfresh k h2.1 h2.2 (Option.some.inj e)
    · simp
  have hpx : (h.node (a p)).parent ≠ some x := H.parent p hp.1 hp.2 ▸ hnone (p / 2)
  have hself : entry n (update a p x) p = some x := by
    rw [entry_of_le hp.1 hp.2, update_self]
  constructor
  · exact update_inj (fun i j h1 hi h2 hj _ _ => H.inj i j h1 hi h2 hj)
      fun i h1 hi _ => hfresh i h1 hi
  · rw [heapReplace_min hxy hl hr, H.parent p hp.1 hp.2, H.min]
    by_cases hp1 : p = 1
    · subst hp1
      rw [if_pos entry_zero, hself]
    · rw [entry_of_le (by omega) (by omega), if_neg (by simp), entry_update_of_ne (by omega)]
  · intro i h1 hi
    rw [heapReplace_left hxy hl hr hpx]
    by_cases hip : i = p
    · rw [hip, update_self, if_pos rfl, H.left p hp.1 hp.2, entry_update_of_ne (by omega)]
    · rw [update_of_ne hip, if_neg (hfresh i h1 hi)]
      simp only [H.parent p hp.1 hp.2, H.entry_eq_some ⟨h1, hi⟩, H.left i h1 hi,
        H.entry_eq_some hp]
      split_ifs with h2
      · rw [h2.2, hself]
      · rw [entry_update_of_ne (by omega)]
  · intro i h1 hi
    rw [heapReplace_right hxy hl hr hpx]
    by_cases hip : i = p
    · rw [hip, update_self, if_pos rfl, H.right p hp.1 hp.2, entry_update_of_ne (by omega)]
    · rw [update_of_ne hip, if_neg (hfresh i h1 hi)]
      simp only [H.parent p hp.1 hp.2, H.entry_eq_some ⟨h1, hi⟩, H.left i h1 hi, ne_eq,
        H.entry_eq_some hp, H.right i h1 hi]
      split_ifs with h2
      · rw [show 2 * i + 1 = p by omega, hself]
      · rw [entry_update_of_ne (by omega)]
  · intro i h1 hi
    rw [heapReplace_parent]
    by_cases hip : i = p
    · rw [hip, update_self, H.left p hp.1 hp.2, H.right p hp.1 hp.2,
        if_neg (hnone _), if_neg (hnone _), if_pos rfl, H.parent p hp.1 hp.2,
        entry_update_of_ne (by omega)]
    · rw [update_of_ne hip, if_neg (hfresh i h1 hi), H.parent i h1 hi]
      simp only [H.left p hp.1 hp.2, H.right p hp.1 hp.2, H.entry_eq_some ⟨h1, hi⟩]
      split_ifs with h2 h3
      · rw [show i / 2 = p by omega, hself]
      · rw [show i / 2 = p by omega, hself]
      · rw [entry_update_of_ne (by omega)]

end LibuvWorks
