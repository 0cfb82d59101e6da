import Mathlib.Tactic.Common

/-!
# Machines fed with one symbol at a time

A step consumes a symbol and may stop with a report. `feed` runs the machine over a
list up to the first report and returns what is left. Feeding a list in two parts is
feeding the whole, and a counted field is read by one induction.
-/
namespace Feed

open List

variable {σ α ρ : Type*} (step : σ → α → σ × Option ρ)

/-- The report, the symbols that are left, and the state. -/
def feed : σ → List α → Option ρ × List α × σ
  | s, [] => (none, [], s)
  | s, c :: cs =>
    match step s c with
    | (s, some r) => (some r, cs, s)
    | (s, none) => feed s cs

variable {step} {s t : σ} {c : α} {cs xs ys : List α} {r : ρ}

@[simp] theorem feed_nil : feed step s [] = (none, [], s) := rfl

theorem feed_cons_none (h : step s c = (t, none)) : feed step s (c :: cs) = feed step t cs := by
  rw [feed, h]

theorem feed_cons_some (h : step s c = (t, some r)) :
    feed step s (c :: cs) = (some r, cs, t) := by
  rw [feed, h]

theorem feed_length_le : (feed step s xs).2.1.length ≤ xs.length := by
  induction xs generalizing s with
  | nil => exact Nat.le_refl _
  | cons c cs ih =>
    rcases hs : step s c with ⟨t, _ | r⟩
    · rw [feed_cons_none hs]
      exact Nat.le_trans ih (Nat.le_succ _)
    · rw [feed_cons_some hs]
      exact Nat.le_succ _

theorem feed_rest_of_none (h : (feed step s xs).1 = none) : (feed step s xs).2.1 = [] := by
  induction xs generalizing s with
  | nil => rfl
  | cons c cs ih =>
    rcases hs : step s c with ⟨t, _ | r⟩
    · rw [feed_cons_none hs] at h ⊢
      exact ih h
    · rw [feed_cons_some hs] at h
      cases h

theorem feed_suffix : (feed step s xs).2.1 <:+ xs := by
  induction xs generalizing s with
  | nil => exact suffix_refl []
  | cons c cs ih =>
    rcases hs : step s c with ⟨t, _ | r⟩
    · rw [feed_cons_none hs]
      exact ih.trans (suffix_cons c cs)
    · rw [feed_cons_some hs]
      exact suffix_cons c cs

/-- A machine that simulates another one in every step does so on every list. -/
theorem feed_simulates {τ ρ' : Type*} {step' : τ → α → τ × Option ρ'} {R : σ → τ → Prop}
    {f : ρ' → ρ} (hstep : ∀ s t c, R s t →
      R (step s c).1 (step' t c).1 ∧ (step s c).2 = (step' t c).2.map f)
    {t : τ} (h : R s t) (xs : List α) : R (feed step s xs).2.2 (feed step' t xs).2.2 ∧
      (feed step s xs).1 = (feed step' t xs).1.map f ∧
      (feed step s xs).2.1 = (feed step' t xs).2.1 := by
  induction xs generalizing s t with
  | nil => exact ⟨h, rfl, rfl⟩
  | cons c cs ih =>
    obtain ⟨hR, hreport⟩ := hstep s t c h
    rcases hs' : step' t c with ⟨t', _ | r'⟩
    · have hs : step s c = ((step s c).1, none) := Prod.ext rfl (by rw [hreport, hs']; rfl)
      rw [hs'] at hR
      rw [feed_cons_none hs, feed_cons_none hs']
      exact ih hR
    · have hs : step s c = ((step s c).1, some (f r')) := Prod.ext rfl (by rw [hreport, hs']; rfl)
      rw [hs'] at hR
      rw [feed_cons_some hs, feed_cons_some hs']
      exact ⟨hR, rfl, rfl⟩

theorem feed_append_of_none (h : (feed step s xs).1 = none) :
    feed step s (xs ++ ys) = feed step (feed step s xs).2.2 ys := by
  induction xs generalizing s with
  | nil => rfl
  | cons c cs ih =>
    rcases hs : step s c with ⟨t, _ | r⟩
    · rw [cons_append, feed_cons_none hs] at *
      rw [feed_cons_none hs, ih h]
    · rw [feed_cons_some hs] at h
      cases h

theorem feed_append_of_some (h : (feed step s xs).1 = some r) :
    feed step s (xs ++ ys) = (some r, (feed step s xs).2.1 ++ ys, (feed step s xs).2.2) := by
  induction xs generalizing s with
  | nil => cases h
  | cons c cs ih =>
    rcases hs : step s c with ⟨t, _ | r'⟩
    · rw [feed_cons_none hs] at h
      rw [cons_append, feed_cons_none hs, feed_cons_none hs, ih h]
    · rw [feed_cons_some hs] at h
      cases h
      rw [cons_append, feed_cons_some hs, feed_cons_some hs]

theorem feed_take (st : ℕ → σ) {n : ℕ} (hn : n ≤ xs.length)
    (hstep : ∀ i (hi : i < xs.length), i < n → step (st i) xs[i] = (st (i + 1), none)) :
    feed step (st 0) xs = feed step (st n) (xs.drop n) := by
  induction n with
  | zero => rw [drop_zero]
  | succ n ih =>
    rw [ih (by omega) fun i hi h => hstep i hi (by omega), drop_eq_getElem_cons (by omega),
      feed_cons_none (hstep n (by omega) (by omega))]

theorem feed_field (st : ℕ → σ) {n : ℕ} (hn : xs.length = n + 1)
    (hstep : ∀ i (hi : i < xs.length), i < n → step (st i) xs[i] = (st (i + 1), none)) :
    feed step (st 0) (xs ++ ys) = feed step (st n) (xs[n] :: ys) := by
  rw [feed_take st (n := n) (by rw [length_append]; omega) fun i hi h => by
    rw [getElem_append_left (by omega)]
    exact hstep i (by omega) h]
  rw [drop_append_of_le_length (by omega), drop_eq_getElem_cons (by omega),
    drop_eq_nil_of_le (by omega), singleton_append]

end Feed
