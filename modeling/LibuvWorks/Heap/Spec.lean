import LibuvWorks.Heap.Locate

/-!
# What the heap operations do

`IsHeap lessThan h S` is the invariant of the heap: the nodes of `S` form a
left-filled tree in heap order. `heapInsert` and `heapRemove` keep it, for every
position of the node, as long as the count fits its `unsigned int`.
-/
open Option Function Finset

namespace LibuvWorks

open LevelOrder

variable {α : Type*} [DecidableEq α]

theorem heapSmaller_pos {α : Type*} {lessThan : α → α → Bool} {x c : α}
    (hlt : lessThan c x = true) : heapSmaller lessThan x (some c) = c := if_pos hlt

theorem heapSmaller_neg {α : Type*} {lessThan : α → α → Bool} {x c : α}
    (hlt : ¬ lessThan c x = true) : heapSmaller lessThan x (some c) = x := if_neg hlt

abbrev LessThan (lessThan : α → α → Bool) (x y : α) : Prop := lessThan x y = true

/-- The `h.nelts` nodes of `S` are a complete left-filled binary tree whose links
agree in both directions and in which no child is below its parent. -/
def IsHeap (lessThan : α → α → Bool) (h : Heap α) (S : Finset α) : Prop :=
  ∃ a, Numbered h h.nelts a ∧ Ordered (LessThan lessThan) h.nelts a ∧
    (Finset.Icc 1 h.nelts).image a = S

variable {lessThan : α → α → Bool} {h : Heap α} {n p : ℕ} {a : ℕ → α} {S : Finset α}

theorem IsHeap.card (H : IsHeap lessThan h S) : S.card = h.nelts := by
  obtain ⟨a, hn, _, rfl⟩ := H
  rw [card_image_of_injOn, Nat.card_Icc, Nat.add_sub_cancel]
  intro i hi j hj e
  rw [coe_Icc, Set.mem_Icc] at hi hj
  exact hn.inj i j hi.1 hi.2 hj.1 hj.2 e

omit [DecidableEq α] in
theorem ordered_congr {lt lt' : α → α → Prop} {n : ℕ} {a : ℕ → α} (ho : Ordered lt n a)
    (hagree : ∀ i j, 1 ≤ i → i ≤ n → 1 ≤ j → j ≤ n → (lt' (a i) (a j) ↔ lt (a i) (a j))) :
    Ordered lt' n a :=
  fun i h2 hi hlt => ho i h2 hi ((hagree i (i / 2) (by omega) hi (by omega) (by omega)).mp hlt)

theorem IsHeap.congr {lessThan' : α → α → Bool} (H : IsHeap lessThan h S)
    (hagree : ∀ x ∈ S, ∀ y ∈ S, lessThan' x y = lessThan x y) : IsHeap lessThan' h S := by
  obtain ⟨a, hn, ho, rfl⟩ := H
  refine ⟨a, hn, ordered_congr ho ?_, rfl⟩
  intro i j hi hin hj hjn
  rw [LessThan, LessThan, hagree (a i) (mem_image_of_mem a (mem_Icc.mpr ⟨hi, hin⟩))
    (a j) (mem_image_of_mem a (mem_Icc.mpr ⟨hj, hjn⟩))]

theorem isHeap_init [Inhabited α] (h : Heap α) : IsHeap lessThan (heapInit h) ∅ :=
  ⟨fun _ => default,
    { inj := fun i j h1 hi => by change i ≤ 0 at hi; omega
      min := rfl
      left := fun i h1 hi => by change i ≤ 0 at hi; omega
      right := fun i h1 hi => by change i ≤ 0 at hi; omega
      parent := fun i h1 hi => by change i ≤ 0 at hi; omega },
    fun i h1 hi => by change i ≤ 0 at hi; omega, rfl⟩

variable [IsStrictWeakOrder α (LessThan lessThan)]

theorem IsHeap.min (H : IsHeap lessThan h S) :
    (heapMin h = none ↔ S = ∅) ∧
      ∀ m, heapMin h = some m → m ∈ S ∧ ∀ x ∈ S, lessThan x m = false := by
  obtain ⟨a, hn, ho, rfl⟩ := H
  rw [heapMin, hn.min]
  constructor
  · rw [image_eq_empty, entry]
    split_ifs with h1 <;> simp <;> omega
  · intro m hm
    by_cases h1 : 1 ≤ h.nelts
    · rw [entry_of_le le_rfl h1, Option.some.injEq] at hm
      subst hm
      refine ⟨mem_image_of_mem a (mem_Icc.mpr ⟨le_rfl, h1⟩), ?_⟩
      intro x hx
      obtain ⟨i, hi, rfl⟩ := mem_image.mp hx
      rw [mem_Icc] at hi
      exact Bool.eq_false_iff.mpr (ho.root_least i hi.1 hi.2)
    · rw [entry_of_lt (by omega)] at hm
      cases hm

/-! ## Walking up and down -/

/-- Walking up from a position whose only open link is the one to its parent ends with
the same nodes in order. -/
theorem heapWalkUp_spec (fuel : ℕ) : ∀ {h : Heap α} {a : ℕ → α} {p : ℕ}, Numbered h n a →
    1 ≤ p → p ≤ n → p < 2 ^ fuel → OrderedAround (LessThan lessThan) n p a →
    AboveChildren (LessThan lessThan) n p a →
    ∃ h' a', heapWalkUp lessThan (a p) fuel h = some h' ∧ Numbered h' n a' ∧
      Ordered (LessThan lessThan) n a' ∧ h'.nelts = h.nelts ∧
      (Finset.Icc 1 n).image a' = (Finset.Icc 1 n).image a := by
  induction fuel with
  | zero =>
    intro h a p _ hp _ hlt
    omega
  | succ fuel ih =>
    intro h a p H hp hpn hlt ho hc
    rw [heapWalkUp, H.parent p hp hpn]
    rcases Nat.lt_or_ge p 2 with h1 | h2
    · obtain rfl : p = 1 := by omega
      exact ⟨h, a, by simp, H, ho.ordered hc (by omega), rfl, rfl⟩
    · rw [entry_of_le (by omega) (by omega)]
      by_cases hless : lessThan (a p) (a (p / 2)) = true
      · obtain ⟨ho', hc'⟩ := ho.swap_up h2 hpn hless
        have H' := H.swap (p := p / 2) (c := p) (by omega) rfl hpn
        obtain ⟨h', a', hrun, Hn, hord, hnelts, himg⟩ :=
          ih H' (by omega) (by omega) (by omega) ho' hc'
        refine ⟨h', a', by simpa [hless] using hrun, Hn, hord, by simpa using hnelts, ?_⟩
        rw [himg, image_swapAt a (by simp; omega) (by simp; omega)]
      · exact ⟨h, a, by simp [hless], H, ho.ordered hc (fun _ => hless), rfl, rfl⟩

omit [DecidableEq α] in
theorem heapSmaller_spec (H : Numbered h n a) (hp : 1 ≤ p) (hpn : p ≤ n) :
    let s := heapSmaller lessThan (heapSmaller lessThan (a p) (h.node (a p)).left)
      (h.node (a p)).right
    (s = a p ∧ AboveChildren (LessThan lessThan) n p a) ∨
      ∃ c, c / 2 = p ∧ c ≤ n ∧ s = a c ∧
        ∀ i, i ≤ n → i / 2 = p → ¬ LessThan lessThan (a i) (a c) := by
  have hchild : ∀ {P : ℕ → Prop}, P (2 * p) → (2 * p + 1 ≤ n → P (2 * p + 1)) →
      ∀ i, i ≤ n → i / 2 = p → P i := by
    intro P h0 h1 i hin hi
    obtain rfl | rfl : i = 2 * p ∨ i = 2 * p + 1 := by omega
    · exact h0
    · exact h1 hin
  -- the choice between the best so far and the right child
  have hright : ∀ x, (heapSmaller lessThan x (entry n a (2 * p + 1)) = a (2 * p + 1) ∧
      2 * p + 1 ≤ n ∧ lessThan (a (2 * p + 1)) x = true) ∨
      heapSmaller lessThan x (entry n a (2 * p + 1)) = x ∧
      (2 * p + 1 ≤ n → ¬ lessThan (a (2 * p + 1)) x = true) := by
    intro x
    by_cases hr : 2 * p + 1 ≤ n
    · rw [entry_of_le (by omega) hr]
      by_cases hlt : lessThan (a (2 * p + 1)) x = true
      · exact .inl ⟨heapSmaller_pos hlt, hr, hlt⟩
      · exact .inr ⟨heapSmaller_neg hlt, fun _ => hlt⟩
    · exact .inr ⟨by rw [entry_of_lt (by omega)]; rfl, fun h => absurd h hr⟩
  rw [H.left p hp hpn, H.right p hp hpn]
  by_cases hl : 2 * p ≤ n
  · rw [entry_of_le (by omega) hl]
    by_cases hlt : lessThan (a (2 * p)) (a p) = true
    · rw [heapSmaller_pos hlt]
      obtain ⟨hs, hr, hrl⟩ | ⟨hs, hr⟩ := hright (a (2 * p))
      · exact .inr ⟨2 * p + 1, by omega, hr, hs,
          hchild (asymm (r := LessThan lessThan) hrl) fun _ => irrefl _⟩
      · exact .inr ⟨2 * p, by omega, hl, hs, hchild (irrefl _) hr⟩
    · rw [heapSmaller_neg hlt]
      obtain ⟨hs, hr, hrp⟩ | ⟨hs, hr⟩ := hright (a p)
      · exact .inr ⟨2 * p + 1, by omega, hr, hs,
          hchild (fun hbad => hlt (trans_of (LessThan lessThan) hbad hrp)) fun _ => irrefl _⟩
      · exact .inl ⟨hs, hchild hlt hr⟩
  · refine .inl ⟨?_, fun i hin hi => by omega⟩
    rw [entry_of_lt (by omega), entry_of_lt (by omega)]
    rfl

/-- Walking down ends at a position whose only open link is the one to its parent. -/
theorem heapWalkDown_spec (fuel : ℕ) : ∀ {h : Heap α} {a : ℕ → α} {p : ℕ}, Numbered h n a →
    1 ≤ p → p ≤ n → n < p * 2 ^ fuel → OrderedAround (LessThan lessThan) n p a →
    ∃ h' a' q, heapWalkDown lessThan (a p) fuel h = some h' ∧ Numbered h' n a' ∧
      a' q = a p ∧ 1 ≤ q ∧ q ≤ n ∧ OrderedAround (LessThan lessThan) n q a' ∧
      AboveChildren (LessThan lessThan) n q a' ∧ h'.nelts = h.nelts ∧
      (Finset.Icc 1 n).image a' = (Finset.Icc 1 n).image a := by
  induction fuel with
  | zero =>
    intro h a p _ _ _ hlt
    omega
  | succ fuel ih =>
    intro h a p H hp hpn hlt ho
    rw [heapWalkDown]
    obtain ⟨hs, hc⟩ | ⟨c, hc, hcn, hs, hleast⟩ :=
      @heapSmaller_spec α lessThan h n p a _ H hp hpn
    · exact ⟨h, a, p, if_pos hs, H, rfl, hp, hpn, ho, hc, rfl, rfl⟩
    · have hne : a c ≠ a p := fun e => by
        have := H.inj c p (by omega) hcn hp hpn e
        omega
      have hfuel : n < c * 2 ^ fuel := by
        have h2 : p * 2 ^ (fuel + 1) = 2 * p * 2 ^ fuel := by rw [Nat.pow_succ]; ac_rfl
        have h3 : 2 * p * 2 ^ fuel ≤ c * 2 ^ fuel := Nat.mul_le_mul_right _ (by omega)
        omega
      obtain ⟨h', a', q, hrun, Hn, haq, hq, hqn, ho', hc', hnelts, himg⟩ :=
        ih (H.swap hp hc hcn) (by omega) hcn hfuel (ho.swap_down hp hc hcn hleast)
      rw [swapAt_right] at hrun haq
      refine ⟨h', a', q, ?_, Hn, haq, hq, hqn, ho', hc', by simpa using hnelts, ?_⟩
      · rw [hs, if_neg hne]
        exact hrun
      · rw [himg, image_swapAt a (by simp; omega) (by simp; omega)]

/-! ## Insertion and removal -/

theorem mem_image_Icc {x : α} : x ∈ (Finset.Icc 1 n).image a ↔ ∃ i, 1 ≤ i ∧ i ≤ n ∧ a i = x := by
  simp [and_assoc]

theorem image_append (a : ℕ → α) (n : ℕ) (x : α) :
    (Finset.Icc 1 (n + 1)).image (Function.update a (n + 1) x) =
      insert x ((Finset.Icc 1 n).image a) := by
  ext y
  rw [mem_insert, mem_image_Icc, mem_image_Icc]
  constructor
  · rintro ⟨i, h1, hi, rfl⟩
    by_cases hin : i = n + 1
    · exact .inl (by rw [hin, update_self])
    · exact .inr ⟨i, h1, by omega, by rw [update_of_ne hin]⟩
  · rintro (rfl | ⟨i, h1, hi, rfl⟩)
    · exact ⟨n + 1, by omega, le_rfl, update_self ..⟩
    · exact ⟨i, h1, by omega, update_of_ne (by omega) ..⟩

/-- Dropping the last position, after its node has taken the place of the node at `p`. -/
theorem Numbered.image_erase (H : Numbered h (n + 1) a) (hp : 1 ≤ p) (hpn : p ≤ n + 1) :
    (Finset.Icc 1 n).image (Function.update a p (a (n + 1))) =
      ((Finset.Icc 1 (n + 1)).image a).erase (a p) := by
  ext y
  rw [mem_erase, mem_image_Icc, mem_image_Icc]
  constructor
  · rintro ⟨i, h1, hi, rfl⟩
    by_cases hip : i = p
    · rw [hip, update_self]
      exact ⟨fun e => by have := H.inj _ _ (by omega) le_rfl hp hpn e; omega,
        n + 1, by omega, le_rfl, rfl⟩
    · rw [update_of_ne hip]
      exact ⟨fun e => hip (H.inj _ _ h1 (by omega) hp hpn e), i, h1, by omega, rfl⟩
  · rintro ⟨hne, i, h1, hi, rfl⟩
    have hip : i ≠ p := fun e => hne (e ▸ rfl)
    by_cases hin : i = n + 1
    · exact ⟨p, hp, by omega, by rw [update_self, hin]⟩
    · exact ⟨i, h1, by omega, update_of_ne hip ..⟩

/-- Inserting a node from outside the tree terminates and adds exactly that node. -/
theorem heapInsert_spec (H : IsHeap lessThan h S) {x : α} (hx : x ∉ S)
    (hcap : S.card + 1 < 2 ^ 32) :
    ∃ h', heapInsert lessThan h x = some h' ∧ IsHeap lessThan h' (insert x S) := by
  have hcard := H.card
  obtain ⟨a, hn, ho, rfl⟩ := H
  have hfresh : ∀ i, 1 ≤ i → i ≤ h.nelts → a i ≠ x :=
    fun i h1 hi e => hx (mem_image_Icc.mpr ⟨i, h1, hi, e⟩)
  have hn0 : Numbered (h.setNode x ⟨none, none, none⟩) h.nelts a :=
    hn.of_nodes rfl fun i h1 hi => by rw [Heap.setNode_node, if_neg (hfresh i h1 hi)]
  have hn1 := hn0.append hfresh (by simp)
  have hu : toUint (1 + h.nelts) = h.nelts + 1 := by
    rw [toUint, Nat.mod_eq_of_lt (by omega), Nat.add_comm]
  have hu' : toUint (h.nelts + 1) = h.nelts + 1 := by rw [Nat.add_comm, hu, Nat.add_comm]
  have hloc := hn0.locate (m := h.nelts + 1) (by omega) le_rfl (by omega)
  generalize hg : ((h.setNode x ⟨none, none, none⟩).setParent x
    ((h.setNode x ⟨none, none, none⟩).get (linkAt a ((h.nelts + 1) / 2)))).set
    (linkAt a (h.nelts + 1)) (some x) = g at hn1
  have hgn : g.nelts = h.nelts := by rw [← hg]; simp
  have hn2 : Numbered { g with nelts := h.nelts + 1 } (h.nelts + 1)
      (Function.update a (h.nelts + 1) x) := hn1.of_nodes rfl fun _ _ _ => rfl
  obtain ⟨h', a', hrun, Hn, hord, hnelts, himg⟩ := heapWalkUp_spec 32 hn2 (by omega) le_rfl
    (by omega) (ho.push x) fun i hi1 hi2 => by omega
  rw [update_self] at hrun
  refine ⟨h', ?_, a', hnelts ▸ Hn, hnelts ▸ hord, ?_⟩
  · simp only [heapInsert, Heap.setNode_nelts, hu, hloc, bind_eq_bind, bind_some,
      hg, hgn, hu']
    exact hrun
  · rw [hnelts, himg, image_append]

theorem heapRemove_spec (H : IsHeap lessThan h S) {x : α} (hx : x ∈ S) (hcap : S.card < 2 ^ 32) :
    ∃ h', heapRemove lessThan h x = some h' ∧ IsHeap lessThan h' (S.erase x) := by
  have hcard := H.card
  obtain ⟨a, hn, ho, rfl⟩ := H
  obtain ⟨p, hp, hpn, rfl⟩ := mem_image_Icc.mp hx
  obtain ⟨m, hm⟩ : ∃ m, h.nelts = m + 1 := ⟨h.nelts - 1, by omega⟩
  rw [hm] at hn ho hpn hcard hcap
  have hloc := hn.locate (m := m + 1) (by omega) (by omega) (by omega)
  generalize hg : Heap.set { h with nelts := m } (linkAt a (m + 1)) none = g
  have hget : Heap.get { h with nelts := m } (linkAt a (m + 1)) = some (a (m + 1)) :=
    (hn.get_linkAt (by omega) (by omega)).trans (entry_of_le (by omega) le_rfl)
  have hgm : g.nelts = m := by rw [← hg]; simp
  have hn1 : Numbered g m a :=
    hg ▸ (hn.of_nodes (g := { h with nelts := m }) rfl fun _ _ _ => rfl).unlink
  have hbody : heapRemove lessThan h (a p) = if a (m + 1) = a p then
      some (if g.min = some (a (m + 1)) then { g with min := none } else g)
      else (heapWalkDown lessThan (a (m + 1)) 32 (heapReplace g (a p) (a (m + 1)))).bind
        (heapWalkUp lessThan (a (m + 1)) 32) := by
    simp only [heapRemove, hm, hloc, hget, hg, bind_eq_bind, bind_some,
      Nat.add_sub_cancel, Nat.add_eq_zero_iff, one_ne_zero, and_false, if_false]
  have hlast : ∀ i, 1 ≤ i → i ≤ m → a i ≠ a (m + 1) := fun i h1 hi e => by
    have := hn.inj i (m + 1) h1 (by omega) (by omega) le_rfl e
    omega
  rw [hbody, hm]
  by_cases hpm : p = m + 1
  · subst hpm
    have hmin : g.min ≠ some (a (m + 1)) := by
      rw [hn1.min, entry]
      split_ifs with h1
      · exact fun e => hlast 1 h1.1 h1.2 (Option.some.inj e)
      · simp
    rw [if_pos rfl, if_neg hmin]
    refine ⟨g, rfl, a, hgm.symm ▸ hn1, fun i h1 hi => ho i h1 (by omega), ?_⟩
    rw [hgm, ← hn.image_erase hp hpn, update_eq_self]
  · have hpm' : p ≤ m := by omega
    rw [if_neg (fun e => hlast p hp hpm' e.symm)]
    have hn2 := hn1.replace ⟨hp, hpm'⟩ hlast
    obtain ⟨h2, a2, q, hdown, hn3, hq, hq1, hqm, ho2, hc2, hnelts2, himg2⟩ :=
      heapWalkDown_spec 32 hn2 hp hpm' (by omega) (ho.move_last hpm')
    obtain ⟨h3, a3, hup, hn4, ho3, hnelts3, himg3⟩ :=
      heapWalkUp_spec 32 hn3 hq1 hqm (by omega) ho2 hc2
    rw [update_self] at hdown hq
    rw [hq] at hup
    have hnm : h3.nelts = m := by
      rw [hnelts3, hnelts2]
      simp [heapReplace, hgm]
    refine ⟨h3, by rw [hdown]; exact hup, a3, hnm.symm ▸ hn4, hnm.symm ▸ ho3, ?_⟩
    rw [hnm, himg3, himg2, hn.image_erase hp hpn]

end LibuvWorks

/-!
## Whole runs of the heap

`HeapRuns limit h S` are the heaps reached from an initialised one by inserting
fresh nodes while fewer than `limit` are in, removing members and dequeuing the
root; `S` are the nodes inserted and not removed. `struct heap` counts its nodes
in an `unsigned int`: up to `2 ^ 32 - 1` of them the invariant holds in every run,
and the insertion after that loses the tree.
-/
namespace LibuvWorks

variable {α : Type*} [DecidableEq α]

/-- The largest count an `unsigned int` holds. -/
def heapCapacity : ℕ := 2 ^ 32 - 1

inductive HeapRuns (lessThan : α → α → Bool) (limit : ℕ) : Heap α → Finset α → Prop
  | init (h : Heap α) : HeapRuns lessThan limit (heapInit h) ∅
  | insert {h h' : Heap α} {S : Finset α} (x : α) : HeapRuns lessThan limit h S → x ∉ S →
      S.card < limit → heapInsert lessThan h x = some h' →
      HeapRuns lessThan limit h' (insert x S)
  | remove {h h' : Heap α} {S : Finset α} (x : α) : HeapRuns lessThan limit h S → x ∈ S →
      heapRemove lessThan h x = some h' → HeapRuns lessThan limit h' (S.erase x)
  | dequeue {h h' : Heap α} {S : Finset α} (m : α) : HeapRuns lessThan limit h S →
      heapMin h = some m → heapDequeue lessThan h = some h' →
      HeapRuns lessThan limit h' (S.erase m)

variable {lessThan : α → α → Bool} {h : Heap α} {S : Finset α}

theorem HeapRuns.card_le {limit : ℕ} (hr : HeapRuns lessThan limit h S) : S.card ≤ limit := by
  induction hr with
  | init => simp
  | insert x _ hx hlim _ _ => rw [card_insert_of_notMem hx]; omega
  | remove x _ _ _ ih | dequeue m _ _ _ ih => exact (card_erase_le).trans ih

theorem heapDequeue_eq_remove {m : α} (hm : heapMin h = some m) :
    heapDequeue lessThan h = heapRemove lessThan h m := by
  change h.min = some m at hm
  rw [heapDequeue, hm]

section Bounded

variable [Inhabited α] [IsStrictWeakOrder α (LessThan lessThan)]

theorem HeapRuns.isHeap (hr : HeapRuns lessThan heapCapacity h S) : IsHeap lessThan h S := by
  induction hr with
  | init h => exact isHeap_init h
  | @insert h h' S x hr hx hlim hrun ih =>
    unfold heapCapacity at hlim
    obtain ⟨g, hg, hok⟩ := heapInsert_spec ih hx (by omega)
    obtain rfl : h' = g := Option.some.inj (hrun.symm.trans hg)
    exact hok
  | @remove h h' S x hr hx hrun ih =>
    have hcard := hr.card_le
    unfold heapCapacity at hcard
    obtain ⟨g, hg, hok⟩ := heapRemove_spec ih hx (by omega)
    obtain rfl : h' = g := Option.some.inj (hrun.symm.trans hg)
    exact hok
  | @dequeue h h' S m hr hm hrun ih =>
    have hcard := hr.card_le
    unfold heapCapacity at hcard
    obtain ⟨g, hg, hok⟩ := heapRemove_spec ih (ih.min.2 m hm).1 (by omega)
    rw [heapDequeue_eq_remove hm] at hrun
    obtain rfl : h' = g := Option.some.inj (hrun.symm.trans hg)
    exact hok

/-- With room for the count, every operation of every run returns, and the heap it
leaves is the left-filled tree in heap order of exactly the nodes inserted and not
removed, whose minimum no member is below. -/
theorem heap_runs_correct (hr : HeapRuns lessThan heapCapacity h S) :
    IsHeap lessThan h S ∧ (heapMin h = none ↔ S = ∅) ∧
      (∀ m, heapMin h = some m → m ∈ S ∧ ∀ x ∈ S, lessThan x m = false) ∧
      (∀ x ∉ S, S.card < heapCapacity →
        ∃ h', heapInsert lessThan h x = some h' ∧ IsHeap lessThan h' (insert x S)) ∧
      (∀ x ∈ S, ∃ h', heapRemove lessThan h x = some h' ∧ IsHeap lessThan h' (S.erase x)) ∧
      ∃ h', heapDequeue lessThan h = some h' := by
  have hok := hr.isHeap
  have hcard := hr.card_le
  unfold heapCapacity at hcard ⊢
  refine ⟨hok, hok.min.1, hok.min.2, fun x hx hlim => heapInsert_spec hok hx (by omega),
    fun x hx => heapRemove_spec hok hx (by omega), ?_⟩
  cases hm : heapMin h with
  | none =>
    have hempty := hok.min.1.mp hm
    have hnelts : h.nelts = 0 := by rw [← hok.card, hempty, Finset.card_empty]
    change h.min = none at hm
    exact ⟨h, by rw [heapDequeue, hm, if_pos hnelts]⟩
  | some m =>
    obtain ⟨g, hg, _⟩ := heapRemove_spec hok (hok.min.2 m hm).1 (by omega)
    exact ⟨g, (heapDequeue_eq_remove hm).trans hg⟩

end Bounded

/-! ## A heap of numbers -/

def natLess (x y : ℕ) : Bool := decide (x < y)

instance : IsStrictWeakOrder ℕ (LessThan natLess) where
  irrefl x := by simp [LessThan, natLess]
  trans x y z := by simp only [LessThan, natLess, decide_eq_true_eq]; omega
  incomp_trans x y z := by simp only [LessThan, natLess, decide_eq_true_eq]; omega

def zeroHeap : Heap ℕ := heapInit ⟨none, 0, fun _ => ⟨none, none, none⟩⟩

theorem heap_runs_correct_singleton : ∃ h, HeapRuns natLess heapCapacity h {3} ∧
    IsHeap natLess h {3} ∧ heapMin h = some 3 := by
  have hrun : ∃ h, heapInsert natLess zeroHeap 3 = some h ∧ heapMin h = some 3 :=
    ⟨_, rfl, rfl⟩
  obtain ⟨h, hrun, hmin⟩ := hrun
  have hr : HeapRuns natLess heapCapacity h {3} :=
    .insert 3 (.init _) (Finset.notMem_empty 3) (by decide) hrun
  exact ⟨h, hr, (heap_runs_correct hr).1, hmin⟩

theorem heapRuns_range (limit n : ℕ) (hn : n ≤ limit) (hcap : n ≤ heapCapacity) :
    ∃ h, HeapRuns natLess limit h (Finset.range n) ∧ IsHeap natLess h (Finset.range n) := by
  induction n with
  | zero => exact ⟨zeroHeap, .init _, isHeap_init _⟩
  | succ n ih =>
    obtain ⟨h, hr, hok⟩ := ih (by omega) (by omega)
    unfold heapCapacity at hcap
    obtain ⟨h', hrun, hok'⟩ :=
      heapInsert_spec hok (x := n) (by simp) (by rw [card_range]; omega)
    rw [← range_add_one] at hok'
    refine ⟨h', ?_, hok'⟩
    rw [range_add_one]
    exact .insert n hr (by simp) (by rw [card_range]; omega) hrun

/-- At a full count the position of the next node is computed as `0`: the node takes
the place of the root and the count wraps. -/
theorem heapInsert_full {x m : α} (hfull : h.nelts = heapCapacity) (hmin : h.min = some m)
    (hle : lessThan x m = false) :
    ∃ h', heapInsert lessThan h x = some h' ∧ h'.min = some x ∧ h'.nelts = 0 ∧
      (h'.node x).parent = some m := by
  have hloc : ∀ g : Heap α, heapLocate g 0 = some (.min, .min) := fun _ => rfl
  have hu : toUint (1 + h.nelts) = 0 := by rw [hfull]; rfl
  have hu' : toUint (h.nelts + 1) = 0 := by rw [hfull]; rfl
  simp only [heapInsert, Heap.setNode_nelts, hu, hloc, bind_eq_bind, bind_some,
    Heap.set_nelts, Heap.setParent_nelts, hu']
  simp [heapWalkUp, Heap.set, Heap.get, hmin, hle]

/-- One node more than the count holds: the heap of `2 ^ 32` inserted nodes is not
their tree any more. -/
theorem heap_count_wraps : ∃ h, HeapRuns natLess (2 ^ 32) h (Finset.range (2 ^ 32)) ∧
    ¬ IsHeap natLess h (Finset.range (2 ^ 32)) := by
  obtain ⟨h, hr, hok⟩ := heapRuns_range (2 ^ 32) heapCapacity (by unfold heapCapacity; omega) le_rfl
  have hfull : h.nelts = heapCapacity := by rw [← hok.card, Finset.card_range]
  have hsucc : heapCapacity + 1 = 2 ^ 32 := rfl
  obtain ⟨m, hm⟩ : ∃ m, heapMin h = some m := by
    cases hm : heapMin h with
    | none =>
      have hc := congrArg Finset.card (hok.min.1.mp hm)
      rw [Finset.card_range, Finset.card_empty] at hc
      cases hc
    | some m => exact ⟨m, rfl⟩
  have hlt : natLess heapCapacity m = false := by
    have := Finset.mem_range.mp (hok.min.2 m hm).1
    rw [natLess, decide_eq_false_iff_not]
    omega
  obtain ⟨h', hrun, _, hnelts, _⟩ := heapInsert_full hfull hm hlt
  have hr' := HeapRuns.insert heapCapacity hr (by simp) (by rw [Finset.card_range]; omega) hrun
  rw [← Finset.range_add_one, hsucc] at hr'
  refine ⟨h', hr', fun hbad => ?_⟩
  have hc := hbad.card
  rw [Finset.card_range, hnelts] at hc
  omega

end LibuvWorks
