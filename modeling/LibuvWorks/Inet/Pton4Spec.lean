import LibuvWorks.Inet.Grammar
import LibuvWorks.Inet.Addresses

/-!
# `inet_pton4` accepts the dotted octets

The loop is related to the grammar through the digits `g` of the octet that it has begun.
-/
namespace LibuvWorks.Inet

open Numerals List

variable {s s' : Pton4} {g src : List Char} {bs dst : List UInt8} {c : Char} {d v : ℕ}

/-! ### The digit tables -/

def allDigits : List Char := "0123456789abcdefABCDEF".toList

theorem mem_allDigits (hc : digitValue c = some d) : c ∈ allDigits := by
  have hchar : ∀ lo hi : Char, lo ≤ c → c ≤ hi → (∀ n, lo.toNat ≤ n → n ≤ hi.toNat →
      Char.ofNat n ∈ allDigits) → c ∈ allDigits := by
    intro lo hi hlo hhi hall
    have hmem := hall c.toNat hlo hhi
    rwa [Char.ofNat_toNat] at hmem
  simp only [digitValue] at hc
  split_ifs at hc with h h h
  · apply hchar '0' '9' h.1 h.2
    change ∀ n, 48 ≤ n → n ≤ 57 → _
    intro n _ _
    interval_cases n <;> decide
  · apply hchar 'a' 'f' h.1 h.2
    change ∀ n, 97 ≤ n → n ≤ 102 → _
    intro n _ _
    interval_cases n <;> decide
  · apply hchar 'A' 'F' h.1 h.2
    change ∀ n, 65 ≤ n → n ≤ 70 → _
    intro n _ _
    interval_cases n <;> decide

theorem digitValue_eq_none (hc : c ∉ allDigits) : digitValue c = none := by
  cases hd : digitValue c with
  | none => rfl
  | some d => exact absurd (mem_allDigits hd) hc

theorem xdigit_eq (c : Char) : xdigit c = digitValue c := by
  by_cases hc : c ∈ allDigits
  · have hall : allDigits.all fun c => xdigit c = digitValue c := by decide
    exact of_decide_eq_true (all_eq_true.mp hall c hc)
  · have hsub : xdigitsL ++ xdigitsU ⊆ allDigits := by decide
    rw [digitValue_eq_none hc, xdigit, idxOf?_eq_none_iff.mpr fun h => hc (hsub (by simp [h])),
      idxOf?_eq_none_iff.mpr fun h => hc (hsub (by simp [h]))]
    rfl

theorem idxOf_digits : digits.idxOf? c = some d ↔ digitValue c = some d ∧ d < 10 := by
  have hfilter : digits.idxOf? c = (digitValue c).filter (· < 10) := by
    by_cases hc : c ∈ allDigits
    · have hall : allDigits.all fun c => digits.idxOf? c = (digitValue c).filter (· < 10) := by
        decide
      exact of_decide_eq_true (all_eq_true.mp hall c hc)
    · have hsub : digits ⊆ allDigits := by decide
      rw [digitValue_eq_none hc, idxOf?_eq_none_iff.mpr fun h => hc (hsub h)]
      rfl
  rw [hfilter, Option.filter_eq_some_iff, decide_eq_true_eq]

/-! ### Octets -/

theorem Octet.one (hc : digitValue c = some d) (hd : d < 10) : Octet [c] d where
  numeral := by
    have hsnoc := Numeral.nil.snoc hc hd
    simpa using hsnoc
  ne_nil := by simp
  head := by simp
  le := by omega

theorem Octet.snoc (hg : Octet g v) (hv : v ≠ 0) (hc : digitValue c = some d) (hd : d < 10)
    (hle : 10 * v + d ≤ 255) : Octet (g ++ [c]) (10 * v + d) where
  numeral := hg.numeral.snoc hc hd
  ne_nil := by simp
  head := by
    intro hhead
    have hzero : g.head? = some '0' := by
      cases hcons : g with
      | nil => exact absurd hcons hg.ne_nil
      | cons c' g' => simpa [hcons] using hhead
    have hnumeral := hg.numeral
    rw [hg.head hzero] at hnumeral
    exact absurd (hnumeral.unique (Octet.one (c := '0') rfl (by omega)).numeral) hv
  le := hle

theorem Octet.length_le (hg : Octet g v) : g.length ≤ 3 := by
  by_cases hhead : g.head? = some '0'
  · rw [hg.head hhead]
    decide
  · by_contra hlength
    have hpow := hg.numeral.pow_le hg.ne_nil hhead
    have hle : 10 ^ 3 ≤ 10 ^ (g.length - 1) := Nat.pow_le_pow_right (by omega) (by omega)
    have h255 := hg.le
    omega

theorem toNat_ofNat (hv : v ≤ 255) : (UInt8.ofNat v).toNat = v := by
  rw [UInt8.toNat_ofNat']
  omega

theorem pton4Loop_digits {tmp : List UInt8} {k : ℕ} {rest : List Char} (hg : Octet g v)
    (hk : k < 4) :
    pton4Loop ⟨tmp, 0, false, k⟩ (g ++ rest) = pton4Loop ⟨tmp, .ofNat v, true, k + 1⟩ rest := by
  obtain ⟨hnumeral, hne, hhead, hle⟩ := hg
  induction hnumeral generalizing rest with
  | nil => exact absurd rfl hne
  | @snoc s c n d hs hd hlt ih =>
    have hidx : digits.idxOf? c = some d := idxOf_digits.mpr ⟨hd, hlt⟩
    cases s with
    | nil =>
      have hn : n = 0 := hs.unique .nil
      subst hn
      have hle : ¬ 255 < d := by omega
      have hk' : ¬ 4 < k + 1 := by omega
      simp [pton4Loop, hidx, hle, hk']
    | cons c' s =>
      have hhead' : (c' :: s).head? ≠ some '0' := by
        intro hzero
        have hlength := congrArg List.length (hhead hzero)
        simp at hlength
      have hpos : 0 < n := hs.pos (by omega) (by simp) hhead'
      have hnat : (UInt8.ofNat n).toNat = n := toNat_ofNat (by omega)
      have hcur : UInt8.ofNat n ≠ 0 := by
        intro hzero
        rw [hzero] at hnat
        exact absurd hnat.symm hpos.ne'
      rw [append_assoc, ih (by simp) (fun h => absurd h hhead') (by omega),
        singleton_append, pton4Loop, hidx]
      dsimp only
      rw [if_neg (fun h => hcur h.2), if_neg (by omega), if_pos rfl, hnat, Nat.mul_comm n 10]

theorem pton4Loop_dot {tmp : List UInt8} {cur : UInt8} {k : ℕ} {rest : List Char}
    (hk : k = tmp.length + 1) (hlength : tmp.length + 1 < 4) :
    pton4Loop ⟨tmp, cur, true, k⟩ ('.' :: rest) = pton4Loop ⟨tmp ++ [cur], 0, false, k⟩ rest := by
  have hidx : digits.idxOf? '.' = none := by decide
  rw [pton4Loop, hidx]
  dsimp only
  rw [if_pos ⟨rfl, rfl⟩, if_neg (by omega), if_neg (by omega)]

theorem DottedOctets.length_pos (hsrc : DottedOctets src bs) : 0 < bs.length := by
  cases hsrc <;> simp

theorem pton4Loop_complete (hsrc : DottedOctets src bs) (tmp : List UInt8)
    (hlength : tmp.length + bs.length ≤ 4) :
    ∃ s', pton4Loop ⟨tmp, 0, false, tmp.length⟩ src = .ok s' ∧
      s'.octets = tmp.length + bs.length ∧ s'.tmp ++ [s'.cur] = tmp ++ bs := by
  induction hsrc generalizing tmp with
  | @one a v ha =>
    refine ⟨⟨tmp, .ofNat v, true, tmp.length + 1⟩, ?_, rfl, rfl⟩
    rw [length_singleton] at hlength
    have hdigits : pton4Loop ⟨tmp, 0, false, tmp.length⟩ (a ++ []) = _ :=
      pton4Loop_digits ha (by omega)
    rwa [append_nil] at hdigits
  | @cons a s v bs ha hs ih =>
    have hpos := hs.length_pos
    rw [length_cons] at hlength
    have hlength' : (tmp ++ [UInt8.ofNat v]).length = tmp.length + 1 := by simp
    obtain ⟨s', hs', hoctets, htmp⟩ := ih (tmp ++ [.ofNat v]) (by omega)
    refine ⟨s', ?_, ?_, ?_⟩
    · rw [pton4Loop_digits ha (by omega), pton4Loop_dot rfl (by omega), ← hlength', hs']
    · rw [hoctets, length_cons]
      omega
    · rw [htmp, append_assoc, singleton_append]

/-- What the loop has read: the digits `g` of the octet in `*tp`. -/
structure Pton4Read (s : Pton4) (g : List Char) : Prop where
  started : s.sawDigit = true → Octet g s.cur.toNat ∧ s.octets = s.tmp.length + 1 ∧ s.octets ≤ 4
  fresh : s.sawDigit = false → g = [] ∧ s.cur = 0 ∧ s.octets = s.tmp.length ∧ s.octets < 4

theorem Pton4Read.digit (hread : Pton4Read s g) (hsaw : s.sawDigit = true)
    (hd : digitValue c = some d) (hlt : d < 10) (hcur : s.cur ≠ 0)
    (hle : s.cur.toNat * 10 + d ≤ 255) :
    Pton4Read { s with cur := .ofNat (s.cur.toNat * 10 + d) } (g ++ [c]) where
  started := by
    intro _
    obtain ⟨hg, hoctets, hfour⟩ := hread.started hsaw
    rw [toNat_ofNat hle, Nat.mul_comm]
    exact ⟨hg.snoc (fun h => hcur (UInt8.toNat.inj h)) hd hlt (by omega), hoctets, hfour⟩
  fresh := by
    intro h
    exact absurd (hsaw.symm.trans h) (by decide)

theorem Pton4Read.firstDigit (hread : Pton4Read s g) (hsaw : s.sawDigit = false)
    (hd : digitValue c = some d) (hlt : d < 10) :
    Pton4Read { s with cur := .ofNat (s.cur.toNat * 10 + d), octets := s.octets + 1,
                       sawDigit := true } (g ++ [c]) where
  started := by
    intro _
    obtain ⟨rfl, hcur, hoctets, hfour⟩ := hread.fresh hsaw
    dsimp only
    rw [hcur]
    change Octet ([] ++ [c]) (UInt8.ofNat (0 * 10 + d)).toNat ∧ _
    rw [Nat.zero_add, toNat_ofNat (by omega)]
    exact ⟨.one hd hlt, by omega, by omega⟩
  fresh := by
    intro h
    cases h

/-- The loop fails with `EINVAL` only, and what it reads to the end are dotted octets. -/
theorem pton4Loop_sound (hread : Pton4Read s g) (src : List Char) :
    (∀ e, pton4Loop s src = .error e → e = .einval) ∧
      ∀ s', pton4Loop s src = .ok s' → 4 ≤ s'.octets → s'.tmp.length = 3 ∧
        ∃ bs, DottedOctets (g ++ src) bs ∧ s'.tmp ++ [s'.cur] = s.tmp ++ bs := by
  induction src generalizing s g with
  | nil =>
    refine ⟨fun e h => (by cases h), ?_⟩
    intro s' hs' hfour
    obtain rfl := Except.ok.inj hs'
    cases hsaw : s.sawDigit with
    | true =>
      obtain ⟨hg, hoctets, hle⟩ := hread.started hsaw
      have hone := DottedOctets.one hg
      rw [UInt8.ofNat_toNat] at hone
      refine ⟨by omega, [s.cur], ?_, rfl⟩
      rwa [append_nil]
    | false =>
      obtain ⟨-, -, -, hlt⟩ := hread.fresh hsaw
      omega
  | cons c src ih =>
    rw [pton4Loop]
    cases hidx : digits.idxOf? c with
    | some d =>
      obtain ⟨hd, hlt⟩ := idxOf_digits.mp hidx
      dsimp only
      have hassoc : g ++ c :: src = (g ++ [c]) ++ src := by simp
      rw [hassoc]
      split_ifs with hzero hover hsaw hoctets
      · simp
      · simp
      · exact ih (hread.digit hsaw hd hlt (fun h => hzero ⟨hsaw, h⟩) (by omega))
      · simp
      · exact ih (hread.firstDigit (Bool.eq_false_iff.mpr hsaw) hd hlt)
    | none =>
      dsimp only
      split_ifs with hdot hoctets hbound
      · simp
      · obtain ⟨hg, hcount, hle⟩ := hread.started hdot.2
        omega
      · obtain ⟨hg, hcount, hle⟩ := hread.started hdot.2
        obtain ⟨rfl, -⟩ := hdot
        have hread' : Pton4Read ⟨s.tmp ++ [s.cur], 0, false, s.octets⟩ [] := by
          refine ⟨fun h => (by cases h), fun _ => ⟨rfl, rfl, ?_, ?_⟩⟩
          · simpa using hcount
          · dsimp only
            omega
        obtain ⟨herr, hok⟩ := ih hread'
        refine ⟨herr, ?_⟩
        intro s' hs' hfour
        obtain ⟨hlength, bs, hbs, heq⟩ := hok s' hs' hfour
        refine ⟨hlength, s.cur :: bs, ?_, ?_⟩
        · have hcons := DottedOctets.cons hg hbs
          rwa [UInt8.ofNat_toNat] at hcons
        · rw [heq, append_assoc, singleton_append]
      · simp

/-! ### `inet_pton4` -/

theorem memcpy_eq {α : Type*} {off n : ℕ} {dst tmp : List α} (hn : tmp.length = n)
    (hdst : off + n ≤ dst.length) :
    memcpy dst off tmp n = some (dst.take off ++ tmp ++ dst.drop (off + n)) := by
  rw [memcpy, if_pos ⟨hn.ge, hdst⟩, ← hn, take_length]

theorem inetPton4_of_text {off : ℕ} (hsrc : IPv4Text src bs) (hdst : off + 4 ≤ dst.length) :
    inetPton4 src dst off = some (.ok, dst.take off ++ bs ++ dst.drop (off + 4)) := by
  obtain ⟨hdotted, hlength⟩ := hsrc
  obtain ⟨s', hs', hoctets, htmp⟩ := pton4Loop_complete hdotted [] (by simp [hlength])
  rw [nil_append] at htmp
  rw [inetPton4]
  rw [length_nil] at hs' hoctets
  rw [hs']
  dsimp only
  rw [if_neg (by omega), htmp, memcpy_eq hlength hdst]
  rfl

theorem inetPton4_of_not_text {off : ℕ} (hsrc : ∀ bs, ¬ IPv4Text src bs) :
    inetPton4 src dst off = some (.einval, dst) := by
  have hread : Pton4Read ⟨[], 0, false, 0⟩ [] :=
    ⟨fun h => (by cases h), fun _ => ⟨rfl, rfl, rfl, by decide⟩⟩
  obtain ⟨herr, hok⟩ := pton4Loop_sound hread src
  rw [inetPton4]
  cases hloop : pton4Loop ⟨[], 0, false, 0⟩ src with
  | error e =>
    rw [herr e hloop]
  | ok s' =>
    dsimp only
    split_ifs with hfour
    · rfl
    · obtain ⟨hlength, bs, hbs, heq⟩ := hok s' hloop (by omega)
      rw [nil_append] at heq
      apply absurd _ (hsrc bs)
      refine ⟨hbs, ?_⟩
      rw [← heq]
      simp [hlength]

end LibuvWorks.Inet
