import LibuvWorks.Inet.Grammar
import LibuvWorks.Inet.Addresses
import Mathlib.Data.List.GetD

/-!
# The texts that `inet_ntop4` and `inet_ntop6` write

They are texts of the grammar, with the bytes of the source. Of the run that `inet_ntop6`
leaves out only that its words are zero matters, not that it is the longest.
-/
namespace LibuvWorks.Inet

open Numerals List Nat Bool

variable {words : ℕ → ℕ} {best : Run} {tail text : List Char} {src : List UInt8} {i b l n : ℕ}
  {rest : List ℕ}

/-! ### Numbers -/

theorem octet_toDigits (b : UInt8) : Octet (Nat.toDigits 10 b.toNat) b.toNat where
  numeral := numeral_toDigits (by omega) (by omega) _
  ne_nil := toDigits_ne_nil
  head := by
    intro hhead
    rw [eq_zero_of_head_toDigits (by omega) (by omega) hhead, toDigits_zero]
  le := by
    have hlt := b.toNat_lt
    omega

theorem dotted_text (a b c d : UInt8) : IPv4Text (dotted a b c d) [a, b, c, d] where
  dotted := by
    have hd := DottedOctets.one (octet_toDigits d)
    have hcd := DottedOctets.cons (octet_toDigits c) hd
    have hbcd := DottedOctets.cons (octet_toDigits b) hcd
    have habcd := DottedOctets.cons (octet_toDigits a) hbcd
    simp only [UInt8.ofNat_toNat] at habcd
    exact habcd
  length := rfl

theorem length_toDigits_le (b : UInt8) : (Nat.toDigits 10 b.toNat).length ≤ 3 := by
  rw [length_toDigits_le_iff (by omega) (by omega)]
  have hlt := b.toNat_lt
  omega

theorem length_dotted (a b c d : UInt8) : (dotted a b c d).length ≤ 15 := by
  have ha := length_toDigits_le a
  have hb := length_toDigits_le b
  have hc := length_toDigits_le c
  have hd := length_toDigits_le d
  simp only [dotted, length_append, length_cons]
  omega

def hex (w : ℕ) : List Char := Nat.toDigits 16 w

theorem length_hex {w : ℕ} (hw : w < 65536) : (hex w).length ≤ 4 :=
  (length_toDigits_le_iff (by omega) (by omega)).mpr hw

theorem group_hex {w : ℕ} (hw : w < 65536) : Group (hex w) w where
  numeral := numeral_toDigits (by omega) (by omega) w
  ne_nil := toDigits_ne_nil
  length := length_hex hw

/-! ### Words -/

theorem word_eq (src : List UInt8) (i : ℕ) :
    word src i = (src.getD (2 * i) 0).toNat * 256 + (src.getD (2 * i + 1) 0).toNat := by
  have hlt := (src.getD (2 * i + 1) 0).toNat_lt
  rw [word, ← shiftLeft_add_eq_or_of_lt hlt, shiftLeft_eq]

theorem word_lt (src : List UInt8) (i : ℕ) : word src i < 65536 := by
  have hhigh := (src.getD (2 * i) 0).toNat_lt
  have hlow := (src.getD (2 * i + 1) 0).toNat_lt
  rw [word_eq]
  omega

theorem groupBytes_word (src : List UInt8) (i : ℕ) :
    groupBytes (word src i) = [src.getD (2 * i) 0, src.getD (2 * i + 1) 0] := by
  have hlow := (src.getD (2 * i + 1) 0).toNat_lt
  have hdiv : word src i / 256 = (src.getD (2 * i) 0).toNat := by
    rw [word_eq]
    omega
  have hmod : word src i % 256 = (src.getD (2 * i + 1) 0).toNat := by
    rw [word_eq]
    omega
  rw [groupBytes, hdiv, hmod, UInt8.ofNat_toNat, UInt8.ofNat_toNat]

/-- The bytes of `n` words from word `i` on. -/
def wordBytes (words : ℕ → ℕ) (i n : ℕ) : List UInt8 :=
  (List.range' i n).flatMap fun j => groupBytes (words j)

theorem wordBytes_succ (i n : ℕ) :
    wordBytes words i (n + 1) = groupBytes (words i) ++ wordBytes words (i + 1) n := by
  rfl

theorem wordBytes_add (i m n : ℕ) :
    wordBytes words i (m + n) = wordBytes words i m ++ wordBytes words (i + m) n := by
  rw [wordBytes, ← range'_append_1, flatMap_append]
  rfl

theorem length_wordBytes (i n : ℕ) : (wordBytes words i n).length = 2 * n := by
  induction n generalizing i with
  | zero => rfl
  | succ n ih =>
    rw [wordBytes_succ, length_append, ih]
    simp only [groupBytes, length_cons, length_nil]
    omega

theorem wordBytes_zero (hzero : ∀ j, i ≤ j → j < i + n → words j = 0) :
    wordBytes words i n = List.replicate (2 * n) 0 := by
  induction n generalizing i with
  | zero => rfl
  | succ n ih =>
    rw [wordBytes_succ, hzero i le_rfl (by omega), ih fun j hj hlt => hzero j (by omega) (by omega)]
    rfl

theorem wordBytes_drop {src : List UInt8} (k : ℕ) (hsrc : src.length = 2 * (i + k)) :
    wordBytes (word src) i k = src.drop (2 * i) := by
  induction k generalizing i with
  | zero =>
    rw [drop_of_length_le (by omega)]
    rfl
  | succ k ih =>
    have h0 : 2 * i < src.length := by omega
    have h1 : 2 * i + 1 < src.length := by omega
    rw [wordBytes_succ, ih (by omega), groupBytes_word, drop_eq_getElem_cons h0,
      drop_eq_getElem_cons h1, getD_eq_getElem _ 0 h0, getD_eq_getElem _ 0 h1]
    rfl

theorem wordBytes_word (hsrc : src.length = 16) : wordBytes (word src) 0 8 = src :=
  wordBytes_drop 8 hsrc

/-! ### The run that is left out -/

/-- A run of zero words before word `n`. -/
def Run.Zero (r : Run) (words : ℕ → ℕ) (n : ℕ) : Prop :=
  ∀ b, r.base = some b → b + r.len ≤ n ∧ ∀ j, b ≤ j → j < b + r.len → words j = 0

theorem Run.Zero.mono {r : Run} {m : ℕ} (h : r.Zero words n) (hle : n ≤ m) : r.Zero words m :=
  fun b hb => ⟨(h b hb).1.trans hle, (h b hb).2⟩

theorem closeRun_zero {cur : Run} (hbest : best.Zero words n) (hcur : cur.Zero words n) :
    (closeRun best cur).Zero words n := by
  rw [closeRun]
  split_ifs
  · exact hbest
  · exact hcur
  · exact hbest

theorem scan_zero (words : ℕ → ℕ) (n : ℕ) :
    let runs := (range n).foldl (scanWord words) (⟨none, 0⟩, ⟨none, 0⟩)
    runs.1.Zero words n ∧ runs.2.Zero words n ∧ ∀ b, runs.2.base = some b → b + runs.2.len = n := by
  induction n with
  | zero => simp [Run.Zero]
  | succ n ih =>
    rw [range_succ, foldl_append]
    generalize (range n).foldl (scanWord words) (⟨none, 0⟩, ⟨none, 0⟩) = runs at ih ⊢
    obtain ⟨best, cur⟩ := runs
    obtain ⟨hbest, hcur, hend⟩ := ih
    simp only [foldl_cons, foldl_nil, scanWord]
    split_ifs with hword hbase
    · refine ⟨hbest.mono (le_succ n), ?_, ?_⟩
      · intro b hb
        cases hb
        refine ⟨le_rfl, ?_⟩
        intro j hj hlt
        obtain rfl : j = n := by
          dsimp only at hlt
          omega
        exact hword
      · intro b hb
        cases hb
        rfl
    · refine ⟨hbest.mono (le_succ n), ?_, ?_⟩
      · intro b hb
        have hb' := hend b hb
        dsimp only at hb' ⊢
        refine ⟨by omega, ?_⟩
        intro j hj hlt
        by_cases heq : j = n
        · rw [heq]
          exact hword
        · exact (hcur b hb).2 j hj (by dsimp only; omega)
      · intro b hb
        have hb' := hend b hb
        dsimp only at hb' ⊢
        omega
    · exact ⟨(closeRun_zero hbest hcur).mono (le_succ n), by simp [Run.Zero], by simp⟩

theorem bestRun_spec (words : ℕ → ℕ) :
    (bestRun words).base = none ∨
      ∃ b l, bestRun words = ⟨some b, l⟩ ∧ 2 ≤ l ∧ b + l ≤ 8 ∧
        ∀ j, b ≤ j → j < b + l → words j = 0 := by
  obtain ⟨hbest, hcur, -⟩ := scan_zero words 8
  have hzero := closeRun_zero hbest hcur
  rw [bestRun]
  split_ifs with hshort
  · exact .inl rfl
  · generalize closeRun _ _ = best at hzero hshort ⊢
    obtain ⟨base, len⟩ := best
    cases base with
    | none => exact .inl rfl
    | some b =>
      right
      have hlen : 2 ≤ len := Nat.le_of_not_lt fun habs => hshort ⟨by simp, habs⟩
      exact ⟨b, len, rfl, hlen, hzero b rfl⟩

/-! ### The text of eight words -/

/-- What the loop writes from a word on; `tail` is the text of an encapsulated address. -/
def written (words : ℕ → ℕ) (best : Run) (tail : List Char) : List ℕ → List Char
  | [] => []
  | i :: is =>
    if best.inside i then
      (if best.base = some i then [':'] else []) ++ written words best tail is
    else
      (if i ≠ 0 then [':'] else []) ++
        if best.encapsulated words i then tail
        else hex (words i) ++ written words best tail is

def colonHex (words : ℕ → ℕ) (i n : ℕ) : List Char :=
  (List.range' i n).flatMap fun j => ':' :: hex (words j)

theorem colonHex_succ (i n : ℕ) :
    colonHex words i (n + 1) = ':' :: (hex (words i) ++ colonHex words (i + 1) n) := by
  rfl

theorem length_colonHex (hwords : ∀ j, words j < 65536) (i n : ℕ) :
    (colonHex words i n).length ≤ 5 * n := by
  induction n generalizing i with
  | zero => exact Nat.zero_le _
  | succ n ih =>
    have hlength := length_hex (hwords i)
    have htail := ih (i + 1)
    rw [colonHex_succ, length_cons, length_append]
    omega

theorem groups_words {tail : Bool} (hwords : ∀ j, words j < 65536) (i n : ℕ) :
    Groups tail (hex (words i) ++ colonHex words (i + 1) n) (wordBytes words i (n + 1)) := by
  induction n generalizing i with
  | zero =>
    have hone : Groups tail (hex (words i)) (groupBytes (words i)) := .one (group_hex (hwords i))
    simpa [colonHex, wordBytes] using hone
  | succ n ih =>
    exact .cons (group_hex (hwords i)) (ih (i + 1))

theorem written_outside (hout : ∀ j, i ≤ j → j < i + n → best.inside j = false ∧ j ≠ 0 ∧
      best.encapsulated words j = false) :
    written words best tail (List.range' i n ++ rest) =
      colonHex words i n ++ written words best tail rest := by
  induction n generalizing i with
  | zero => rfl
  | succ n ih =>
    obtain ⟨hinside, hne, henc⟩ := hout i le_rfl (by omega)
    rw [range'_succ, cons_append, written, hinside, henc, if_neg (by simp), if_pos hne,
      if_neg (by simp), ih fun j hj hlt => hout j (by omega) (by omega), colonHex_succ]
    simp

theorem written_inside (hin : ∀ j, i ≤ j → j < i + n → best.inside j = true ∧ best.base ≠ some j) :
    written words best tail (List.range' i n ++ rest) = written words best tail rest := by
  induction n generalizing i with
  | zero => rfl
  | succ n ih =>
    obtain ⟨hinside, hne⟩ := hin i le_rfl (by omega)
    rw [range'_succ, cons_append, written, hinside, if_pos rfl, if_neg hne,
      nil_append, ih fun j hj hlt => hin j (by omega) (by omega)]

theorem inside_iff {j : ℕ} : (⟨some b, l⟩ : Run).inside j = true ↔ b ≤ j ∧ j < b + l := by
  simp [Run.inside]

theorem written_run (hl : 2 ≤ l) :
    written words ⟨some b, l⟩ tail (List.range' b l ++ rest) =
      ':' :: written words ⟨some b, l⟩ tail rest := by
  obtain ⟨k, rfl⟩ : ∃ k, l = k + 1 := ⟨l - 1, by omega⟩
  have hfirst : (⟨some b, k + 1⟩ : Run).inside b = true := inside_iff.mpr ⟨le_rfl, by omega⟩
  rw [range'_succ, cons_append, written, hfirst, if_pos rfl, if_pos rfl,
    written_inside]
  · rfl
  · intro j hj hlt
    refine ⟨inside_iff.mpr ⟨by omega, by omega⟩, ?_⟩
    simp only [ne_eq, Option.some.injEq]
    omega

theorem written_first {is : List ℕ} (hout : best.inside 0 = false) :
    written words best tail (0 :: is) = hex (words 0) ++ written words best tail is := by
  rw [written, hout, if_neg (by simp), if_neg (by simp), if_neg (by simp [Run.encapsulated]),
    nil_append]

theorem encapsulated_of_ne {j : ℕ} (hbase : best.base ≠ some 0) :
    best.encapsulated words j = false := by
  simp [Run.encapsulated, hbase]

theorem written_left (hwords : ∀ j, words j < 65536) (hb : b + l ≤ 8) (tail : List Char)
    (rest : List ℕ) :
    ∃ left, written words ⟨some b, l⟩ tail (List.range' 0 b ++ rest) =
        left ++ written words ⟨some b, l⟩ tail rest ∧
      Side false left (wordBytes words 0 b) ∧ left.length ≤ 5 * b := by
  cases b with
  | zero => exact ⟨[], rfl, .inl ⟨rfl, rfl⟩, le_rfl⟩
  | succ b =>
    have hout : ∀ j, j < b + 1 → (⟨some (b + 1), l⟩ : Run).inside j = false := by
      intro j hj
      rw [eq_false_iff, ne_eq, inside_iff]
      omega
    refine ⟨hex (words 0) ++ colonHex words 1 b, ?_, .inr (groups_words hwords 0 b), ?_⟩
    · rw [range'_succ, cons_append, written_first (hout 0 (by omega)),
        written_outside, append_assoc]
      exact fun j hj hlt => ⟨hout j (by omega), by omega, encapsulated_of_ne (by simp)⟩
    · have hhex := length_hex (hwords 0)
      have hcolon := length_colonHex hwords 1 b
      rw [length_append]
      omega

theorem written_right (hwords : ∀ j, words j < 65536) (hl : 2 ≤ l) (hb : b + l + n = 8)
    (htail : IPv4Text tail (wordBytes words 6 2)) (hlength : tail.length ≤ 15) :
    ∃ right, (written words ⟨some b, l⟩ tail (List.range' (b + l) n) ++
          if b + l = 8 then [':'] else []) = ':' :: right ∧
      Side true right (wordBytes words (b + l) n) ∧ right.length ≤ 5 * n + 10 := by
  cases n with
  | zero =>
    refine ⟨[], ?_, .inl ⟨rfl, rfl⟩, by simp⟩
    rw [if_pos (by omega)]
    rfl
  | succ n =>
    have hout : ∀ j, b + l ≤ j → (⟨some b, l⟩ : Run).inside j = false := by
      intro j hj
      rw [eq_false_iff, ne_eq, inside_iff]
      omega
    rw [if_neg (by omega), append_nil]
    by_cases henc : b + l ≤ 6 ∧ (⟨some b, l⟩ : Run).encapsulated words 6 = true
    · obtain ⟨hle, henc⟩ := henc
      have hshape : b = 0 ∧ (l = 6 ∨ l = 5 ∧ words 5 = 0xffff) := by
        simp only [Run.encapsulated, and_eq_true, or_eq_true, decide_eq_true_eq,
          Option.some.injEq] at henc
        omega
      obtain ⟨rfl, rfl | ⟨rfl, hword⟩⟩ := hshape
      · obtain rfl : n = 1 := by omega
        refine ⟨tail, ?_, .inr (.ipv4 rfl htail), by omega⟩
        rfl
      · obtain rfl : n = 2 := by omega
        have hgroup : Group (hex (words 5)) (words 5) := group_hex (hwords 5)
        have henc5 : (⟨some 0, 5⟩ : Run).encapsulated words 5 = false := by simp [Run.encapsulated]
        refine ⟨hex (words 5) ++ ':' :: tail, ?_, .inr ?_, ?_⟩
        · rw [range'_succ, written, hout 5 (by omega), henc5, range'_succ, written,
            hout 6 (by omega), henc]
          rfl
        · exact .cons hgroup (.ipv4 rfl htail)
        · have hhex := length_hex (hwords 5)
          rw [length_append, length_cons]
          omega
    · have hright : written words ⟨some b, l⟩ tail (range' (b + l) (n + 1) ++ []) =
          colonHex words (b + l) (n + 1) ++ written words ⟨some b, l⟩ tail [] := by
        apply written_outside
        intro j hj hlt
        refine ⟨hout j hj, by omega, ?_⟩
        by_cases hj6 : j = 6
        · subst hj6
          exact eq_false_iff.mpr fun h => henc ⟨hj, h⟩
        · simp [Run.encapsulated, hj6]
      rw [append_nil] at hright
      refine ⟨hex (words (b + l)) ++ colonHex words (b + l + 1) n, ?_,
        .inr (groups_words hwords (b + l) n), ?_⟩
      · rw [hright, colonHex_succ]
        simp [written]
      · have hhex := length_hex (hwords (b + l))
        have hcolon := length_colonHex hwords (b + l + 1) n
        rw [length_append]
        omega

def ntop6Text (words : ℕ → ℕ) (best : Run) (tail : List Char) : List Char :=
  written words best tail (List.range 8) ++
    if best.base.any (· + best.len = 8) then [':'] else []

theorem ntop6Text_spec (hwords : ∀ j, words j < 65536)
    (htail : IPv4Text tail (wordBytes words 6 2)) (hlength : tail.length ≤ 15) :
    IPv6Text (ntop6Text words (bestRun words) tail) (wordBytes words 0 8) ∧
      (ntop6Text words (bestRun words) tail).length ≤ 44 := by
  obtain hnone | ⟨b, l, hbest, hl, hb, hzero⟩ := bestRun_spec words
  · have hout : ∀ j, (bestRun words).inside j = false := by
      intro j
      simp [Run.inside, hnone]
    have htext : ntop6Text words (bestRun words) tail =
        hex (words 0) ++ colonHex words 1 7 := by
      have hoff : written words (bestRun words) tail (range' 1 7 ++ []) = _ :=
        written_outside fun j hj _ => ⟨hout j, by omega, encapsulated_of_ne (by simp [hnone])⟩
      rw [append_nil] at hoff
      rw [ntop6Text, range_eq_range', range'_succ, written_first (hout 0), hoff, hnone]
      simp [written]
    rw [htext]
    refine ⟨.full (groups_words hwords 0 7) (length_wordBytes 0 8), ?_⟩
    have hhex := length_hex (hwords 0)
    have hcolon := length_colonHex hwords 1 7
    rw [length_append]
    omega
  · obtain ⟨n, hn⟩ : ∃ n, b + l + n = 8 := ⟨8 - (b + l), by omega⟩
    obtain ⟨right, hright, hrside, hrlength⟩ := written_right hwords hl hn htail hlength
    obtain ⟨left, hleft, hlside, hllength⟩ := written_left hwords hb tail
      (range' b l ++ range' (b + l) n)
    have hrange : range 8 = range' 0 b ++ (range' b l ++ range' (b + l) n) := by
      have hfirst := range'_append_1 (s := 0) (m := b) (n := l + n)
      have hsecond := range'_append_1 (s := b) (m := l) (n := n)
      rw [Nat.zero_add] at hfirst
      rw [hsecond, hfirst, range_eq_range', ← Nat.add_assoc, hn]
    have htext : ntop6Text words (bestRun words) tail = left ++ ':' :: ':' :: right := by
      rw [ntop6Text, hbest, hrange, hleft, written_run hl, ← hright]
      simp
    have hbytes : wordBytes words 0 8 = wordBytes words 0 b ++ replicate
        (16 - (wordBytes words 0 b).length - (wordBytes words (b + l) n).length) 0 ++
          wordBytes words (b + l) n := by
      have hsplit : 8 = b + (l + n) := by omega
      have hlen : 16 - 2 * b - 2 * n = 2 * l := by omega
      rw [length_wordBytes, length_wordBytes, hlen, ← wordBytes_zero hzero, hsplit,
        wordBytes_add, wordBytes_add, Nat.zero_add, append_assoc]
    rw [htext]
    constructor
    · rw [hbytes]
      apply IPv6Text.compressed hlside hrside
      rw [length_wordBytes, length_wordBytes]
      omega
    · simp only [length_append, length_cons]
      omega

end LibuvWorks.Inet
