import Mathlib.Tactic.IntervalCases

/-!
# Numerals

A text of digits with its value in a base, for the bases up to sixteen. A numeral grows at its
end, as a reader that multiplies and adds goes through it.
-/
namespace Numerals

open List Nat

variable {b n m d : ℕ} {c : Char} {s : List Char}

/-- The value of a digit, of either case. -/
def digitValue (c : Char) : Option ℕ :=
  if '0' ≤ c ∧ c ≤ '9' then some (c.toNat - '0'.toNat)
  else if 'a' ≤ c ∧ c ≤ 'f' then some (c.toNat - 'a'.toNat + 10)
  else if 'A' ≤ c ∧ c ≤ 'F' then some (c.toNat - 'A'.toNat + 10)
  else none

inductive Numeral (b : ℕ) : List Char → ℕ → Prop
  | nil : Numeral b [] 0
  | snoc {s : List Char} {c : Char} {n d : ℕ} : Numeral b s n → digitValue c = some d →
      d < b → Numeral b (s ++ [c]) (b * n + d)

theorem digitValue_lt (hc : digitValue c = some d) : d < 16 := by
  simp only [digitValue] at hc
  split_ifs at hc with h h h
  · have hhigh : c.toNat ≤ 57 := h.2
    have hd : c.toNat - 48 = d := Option.some.inj hc
    omega
  · have hhigh : c.toNat ≤ 102 := h.2
    have hd : c.toNat - 97 + 10 = d := Option.some.inj hc
    omega
  · have hhigh : c.toNat ≤ 70 := h.2
    have hd : c.toNat - 65 + 10 = d := Option.some.inj hc
    omega

theorem digitValue_digitChar (hd : d < 16) : digitValue (Nat.digitChar d) = some d := by
  interval_cases d <;> rfl

theorem digitChar_eq_zero (hd : d < 16) (hzero : Nat.digitChar d = '0') : d = 0 := by
  interval_cases d <;> first | rfl | exact absurd hzero (by decide)

theorem eq_zero_of_digitValue (hc : digitValue c = some 0) : c = '0' := by
  simp only [digitValue] at hc
  split_ifs at hc with hdec
  · apply Char.ext
    apply UInt32.toNat.inj
    have hlow : '0'.toNat ≤ c.toNat := hdec.1
    have heq : c.toNat = '0'.toNat := by
      have hsub := Option.some.inj hc
      omega
    exact heq
  · exact absurd (Option.some.inj hc) (by omega)
  · exact absurd (Option.some.inj hc) (by omega)

section

variable (hs : Numeral b s n)
include hs

theorem Numeral.lt_pow : n < b ^ s.length := by
  induction hs with
  | nil => simp
  | @snoc s c n d _ _ hd ih =>
    have hle : b * (n + 1) ≤ b * b ^ s.length := Nat.mul_le_mul_left b ih
    rw [length_append, length_singleton, Nat.pow_succ, Nat.mul_comm _ b]
    rw [Nat.mul_add] at hle
    omega

theorem Numeral.unique (hs' : Numeral b s m) : n = m := by
  induction hs generalizing m with
  | nil =>
    generalize ht : ([] : List Char) = t at hs'
    cases hs' with
    | nil => rfl
    | snoc => simp at ht
  | @snoc s c n d _ hd _ ih =>
    generalize ht : s ++ [c] = t at hs'
    cases hs' with
    | nil => simp at ht
    | snoc hs' hd' _ =>
      obtain ⟨rfl, hc⟩ := append_inj' ht rfl
      obtain rfl := singleton_inj.mp hc
      rw [ih hs', Option.some.inj (hd.symm.trans hd')]

theorem Numeral.digit (hc : c ∈ s) : ∃ d, digitValue c = some d := by
  induction hs with
  | nil => simp at hc
  | snoc _ hd _ ih =>
    obtain hc | hc := mem_append.mp hc
    · exact ih hc
    · rw [mem_singleton] at hc
      exact ⟨_, hc ▸ hd⟩

theorem Numeral.head_ne (hc : digitValue c = none) : s.head? ≠ some c := by
  intro hhead
  obtain ⟨d, hd⟩ := hs.digit (List.mem_of_mem_head? hhead)
  simp [hc] at hd

theorem Numeral.pow_le (hne : s ≠ []) (hhead : s.head? ≠ some '0') :
    b ^ (s.length - 1) ≤ n := by
  induction hs with
  | nil => exact absurd rfl hne
  | @snoc s c n d hs hd hlt ih =>
    cases s with
    | nil =>
      have hc : d ≠ 0 := by
        rintro rfl
        exact hhead (congrArg some (eq_zero_of_digitValue hd))
      rw [nil_append, length_singleton, Nat.pow_zero]
      omega
    | cons c' s =>
      have hlength : (c' :: s ++ [c]).length - 1 = (c' :: s).length - 1 + 1 := by simp
      have hpow : b ^ ((c' :: s).length - 1) * b ≤ b * n := by
        rw [Nat.mul_comm]
        exact Nat.mul_le_mul_left b (ih (by simp) hhead)
      rw [hlength, Nat.pow_succ]
      omega

theorem Numeral.pos (hb : 0 < b) (hne : s ≠ [])
    (hhead : s.head? ≠ some '0') : 0 < n :=
  (Nat.pow_pos hb).trans_le (hs.pow_le hne hhead)

end

theorem digitValue_lt_ten (hc : digitValue c = some d) (hd : d < 10) : c.toNat = d + 48 := by
  simp only [digitValue] at hc
  split_ifs at hc with h
  · have hlow : 48 ≤ c.toNat := h.1
    have heq : c.toNat - 48 = d := Option.some.inj hc
    omega
  · exact absurd (Option.some.inj hc) (by omega)
  · exact absurd (Option.some.inj hc) (by omega)

/-- A decimal numeral that does not start with `0` is determined by its value. -/
theorem Numeral.injective {t : List Char} (hs : Numeral 10 s n) (ht : Numeral 10 t n)
    (hhead : s.head? ≠ some '0') (hhead' : t.head? ≠ some '0') : s = t := by
  induction hs generalizing t with
  | nil =>
    by_contra hne
    exact absurd (ht.pos (by decide) (Ne.symm hne) hhead') (Nat.lt_irrefl 0)
  | @snoc s c n d hs hd hlt ih =>
    have hpos := (hs.snoc hd hlt).pos (by decide) (by simp) hhead
    generalize hm : 10 * n + d = m at ht hpos
    cases ht with
    | nil => exact absurd hpos (Nat.lt_irrefl 0)
    | @snoc t c' n' d' ht hd' hlt' =>
      obtain ⟨rfl, rfl⟩ : n = n' ∧ d = d' := by omega
      have hchar : c = c' := by
        apply Char.ext
        apply UInt32.toNat.inj
        exact (digitValue_lt_ten hd hlt).trans (digitValue_lt_ten hd' hlt).symm
      have hrest : ∀ {u : List Char}, (u ++ [c]).head? ≠ some '0' → u.head? ≠ some '0' := by
        intro u hu habs
        rw [List.head?_append, habs] at hu
        exact hu rfl
      rw [ih ht (hrest hhead) (hrest (hchar ▸ hhead')), hchar]

theorem Numeral.mono {b' : ℕ} (hs : Numeral b s n) (hle : b ≤ b') : ∃ m, Numeral b' s m := by
  induction hs with
  | nil => exact ⟨0, .nil⟩
  | snoc _ hd hlt ih =>
    obtain ⟨m, hm⟩ := ih
    exact ⟨_, hm.snoc hd (hlt.trans_le hle)⟩

/-! ### The digits of a number -/

theorem numeral_toDigits (hb : 1 < b) (hb' : b ≤ 16) (n : ℕ) : Numeral b (Nat.toDigits b n) n := by
  induction n using Nat.strong_induction_on with
  | _ n ih =>
    rw [toDigits_eq_if hb]
    split_ifs with hn
    · have hsnoc := Numeral.nil.snoc (digitValue_digitChar (by omega : n < 16)) hn
      simpa using hsnoc
    · have hdiv : n / b < n := Nat.div_lt_self (by omega) hb
      have hmod : n % b < b := mod_lt n (by omega)
      have hsnoc := (ih _ hdiv).snoc (digitValue_digitChar (by omega : n % b < 16)) hmod
      rwa [div_add_mod] at hsnoc

theorem eq_zero_of_head_toDigits (hb : 1 < b) (hb' : b ≤ 16)
    (hhead : (Nat.toDigits b n).head? = some '0') : n = 0 := by
  induction n using Nat.strong_induction_on with
  | _ n ih =>
    rw [toDigits_eq_if hb] at hhead
    split_ifs at hhead with hn
    · exact digitChar_eq_zero (by omega) (by simpa using hhead)
    · have hdiv : n / b < n := Nat.div_lt_self (by omega) hb
      have hzero : n / b = 0 := by
        apply ih _ hdiv
        cases hdigits : toDigits b (n / b) with
        | nil => exact absurd hdigits toDigits_ne_nil
        | cons c s => simpa [hdigits] using hhead
      have hpos : 0 < n / b := Nat.div_pos (by omega) (by omega)
      omega

end Numerals
