import Mathlib.Data.List.Perm.Basic
import Mathlib.Order.Lattice

/-!
# Merging defaults into sorted entries

Entries and default items have keys in a linear order. The merge has every entry, and each default
item whose key no entry has, in the order of the keys.
-/
namespace Merging

open List

variable {ρ ε κ : Type*} [LinearOrder κ] (rk : ρ → κ) (ek : ε → κ) {a b : κ}

def keyCmp (a b : κ) : Ordering := cmp a b

theorem keyCmp_eq_lt : keyCmp a b = .lt ↔ a < b := cmp_eq_lt_iff a b

theorem keyCmp_eq_eq : keyCmp a b = .eq ↔ a = b := cmp_eq_eq_iff a b

theorem keyCmp_eq_gt : keyCmp a b = .gt ↔ b < a := cmp_eq_gt_iff a b

theorem keyCmp_swap : (keyCmp a b).swap = keyCmp b a := cmp_swap a b

/-- The merge of a sorted table of default items and sorted entries. -/
def insertMissing : List ρ → List ε → List (ρ ⊕ ε)
  | [], es => es.map Sum.inr
  | r :: rs, [] => .inl r :: insertMissing rs []
  | r :: rs, e :: es =>
    if rk r < ek e then .inl r :: insertMissing rs (e :: es)
    else if rk r = ek e then .inr e :: insertMissing rs es
    else .inr e :: insertMissing (r :: rs) es
termination_by rs es => rs.length + es.length

def missing (rs : List ρ) (es : List ε) : List ρ :=
  rs.filter fun r => decide (∀ e ∈ es, ek e ≠ rk r)

variable {rk ek} {r : ρ} {e : ε} {rs : List ρ} {es : List ε}

theorem insertMissing_nil : insertMissing rk ek [] es = es.map .inr := by rw [insertMissing]

theorem insertMissing_cons_nil :
    insertMissing rk ek (r :: rs) [] = .inl r :: insertMissing rk ek rs [] := by
  rw [insertMissing]

theorem insertMissing_of_lt (h : rk r < ek e) : insertMissing rk ek (r :: rs) (e :: es) =
    .inl r :: insertMissing rk ek rs (e :: es) := by
  rw [insertMissing, if_pos h]

theorem insertMissing_of_eq (h : rk r = ek e) : insertMissing rk ek (r :: rs) (e :: es) =
    .inr e :: insertMissing rk ek rs es := by
  rw [insertMissing, if_neg h.not_lt, if_pos h]

theorem insertMissing_of_gt (h : ek e < rk r) : insertMissing rk ek (r :: rs) (e :: es) =
    .inr e :: insertMissing rk ek (r :: rs) es := by
  rw [insertMissing, if_neg h.not_gt, if_neg h.ne']

theorem missing_nil : missing rk ek rs [] = rs := by
  rw [missing, filter_eq_self]
  intro r _
  exact decide_eq_true fun _ habs => absurd habs not_mem_nil

theorem missing_cons_of_lt (h : ∀ r ∈ rs, ek e < rk r) :
    missing rk ek rs (e :: es) = missing rk ek rs es := by
  apply filter_congr
  intro r hr
  apply decide_eq_decide.mpr
  rw [forall_mem_cons]
  exact and_iff_right (h r hr).ne

theorem missing_cons_missing (h : ∀ e ∈ es, ek e ≠ rk r) :
    missing rk ek (r :: rs) es = r :: missing rk ek rs es := filter_cons_of_pos (decide_eq_true h)

theorem missing_cons_present (h : ∃ e ∈ es, ek e = rk r) :
    missing rk ek (r :: rs) es = missing rk ek rs es := by
  obtain ⟨e, he, hkey⟩ := h
  apply filter_cons_of_neg
  intro habs
  exact of_decide_eq_true habs e he hkey

theorem mem_missing : r ∈ missing rk ek rs es ↔ r ∈ rs ∧ ∀ e ∈ es, ek e ≠ rk r := by
  rw [missing, mem_filter, decide_eq_true_iff]

theorem missing_perm {fs : List ε} (h : es.Perm fs) :
    missing rk ek rs es = missing rk ek rs fs := by
  apply filter_congr
  intro r _
  apply decide_eq_decide.mpr
  exact forall_congr' fun e => imp_congr_left h.mem_iff

theorem insertMissing_perm (hrs : rs.Pairwise fun a b => rk a < rk b)
    (hes : es.Pairwise fun a b => ek a ≤ ek b) :
    (insertMissing rk ek rs es).Perm (es.map .inr ++ (missing rk ek rs es).map .inl) := by
  fun_induction insertMissing rk ek rs es with
  | case1 es => simp [missing]
  | case2 r rs ih =>
    rw [missing_nil, map_nil, map_cons]
    rw [missing_nil, map_nil] at ih
    exact (ih hrs.of_cons hes).cons _
  | case3 r rs e es hlt ih =>
    have hmissing : ∀ f ∈ e :: es, ek f ≠ rk r := by
      intro f hf
      obtain rfl | hf := mem_cons.mp hf
      · exact hlt.ne'
      · exact (lt_of_lt_of_le hlt (rel_of_pairwise_cons hes hf)).ne'
    rw [missing_cons_missing hmissing]
    exact ((ih hrs.of_cons hes).cons _).trans perm_middle.symm
  | case4 r rs e es _ heq ih =>
    have hlater : ∀ q ∈ rs, ek e < rk q := fun q hq => heq ▸ rel_of_pairwise_cons hrs hq
    rw [missing_cons_present ⟨e, mem_cons_self, heq.symm⟩, missing_cons_of_lt hlater]
    exact (ih hrs.of_cons hes.of_cons).cons _
  | case5 r rs e es hlt hne ih =>
    have hbefore : ek e < rk r := lt_of_le_of_ne (not_lt.mp hlt) (Ne.symm hne)
    have hlater : ∀ q ∈ r :: rs, ek e < rk q := by
      intro q hq
      obtain rfl | hq := mem_cons.mp hq
      · exact hbefore
      · exact hbefore.trans (rel_of_pairwise_cons hrs hq)
    rw [missing_cons_of_lt hlater]
    exact (ih hrs hes.of_cons).cons _

theorem mem_insertMissing {x : ρ ⊕ ε} (hx : x ∈ insertMissing rk ek rs es) :
    (∃ r ∈ rs, x = .inl r) ∨ ∃ e ∈ es, x = .inr e := by
  fun_induction insertMissing rk ek rs es with
  | case1 es =>
    obtain ⟨e, he, rfl⟩ := mem_map.mp hx
    exact .inr ⟨e, he, rfl⟩
  | case2 r rs ih | case3 r rs e es hlt ih | case4 r rs e es _ heq ih
  | case5 r rs e es hlt hne ih => grind

theorem insertMissing_sorted (hrs : rs.Pairwise fun a b => rk a < rk b)
    (hes : es.Pairwise fun a b => ek a ≤ ek b) :
    (insertMissing rk ek rs es).Pairwise fun a b => Sum.elim rk ek a ≤ Sum.elim rk ek b := by
  fun_induction insertMissing rk ek rs es with
  | case1 es => exact pairwise_map.mpr hes
  | case2 r rs ih =>
    refine (ih hrs.of_cons hes).cons fun x hx => ?_
    obtain ⟨q, hq, rfl⟩ | ⟨_, habs, _⟩ := mem_insertMissing hx
    · exact (rel_of_pairwise_cons hrs hq).le
    · cases habs
  | case3 r rs e es hlt ih =>
    refine (ih hrs.of_cons hes).cons fun x hx => ?_
    obtain ⟨q, hq, rfl⟩ | ⟨f, hf, rfl⟩ := mem_insertMissing hx
    · exact (rel_of_pairwise_cons hrs hq).le
    · obtain rfl | hf := mem_cons.mp hf
      · exact hlt.le
      · exact hlt.le.trans (rel_of_pairwise_cons hes hf)
  | case4 r rs e es _ heq ih =>
    refine (ih hrs.of_cons hes.of_cons).cons fun x hx => ?_
    obtain ⟨q, hq, rfl⟩ | ⟨f, hf, rfl⟩ := mem_insertMissing hx
    · exact (Eq.symm heq).le.trans (rel_of_pairwise_cons hrs hq).le
    · exact rel_of_pairwise_cons hes hf
  | case5 r rs e es hlt hne ih =>
    refine (ih hrs hes.of_cons).cons fun x hx => ?_
    obtain ⟨q, hq, rfl⟩ | ⟨f, hf, rfl⟩ := mem_insertMissing hx
    · obtain rfl | hq := mem_cons.mp hq
      · exact not_lt.mp hlt
      · exact (not_lt.mp hlt).trans (rel_of_pairwise_cons hrs hq).le
    · exact rel_of_pairwise_cons hes hf

end Merging
