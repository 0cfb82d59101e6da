import LibuvWorks.Inet.Pton4Spec

variable {tail : Bool}

/-!
# `inet_pton6` accepts the IPv6 texts

`Rest` says what the loop still demands of the text from a token on. Every run that succeeds
has met it, and along every text that meets it the loop succeeds.
-/
namespace LibuvWorks.Inet

open Numerals List Option Nat

variable {s s' : Pton6} {g src text : List Char} {bs out out' dst : List UInt8} {c c' : Option ℕ}
  {w d : ℕ}

/-- The text from a token on: `out` has been written, and `c` is the position of `::`; at the
end they are `out'` and `c'`. -/
inductive Rest : Option ℕ → List UInt8 → List Char → List UInt8 → Option ℕ → Prop
  | done {p : ℕ} {out : List UInt8} : Rest (some p) out [] out (some p)
  | group {c : Option ℕ} {out : List UInt8} {g : List Char} {w : ℕ} : Group g w →
      Rest c out g (out ++ groupBytes w) c
  | ipv4 {c : Option ℕ} {out : List UInt8} {s : List Char} {bs : List UInt8} : IPv4Text s bs →
      Rest c out s (out ++ bs) c
  | next {c c' : Option ℕ} {out out' : List UInt8} {g s : List Char} {w : ℕ} : Group g w →
      s ≠ [] → Rest c (out ++ groupBytes w) s out' c' → Rest c out (g ++ ':' :: s) out' c'
  | colon {c' : Option ℕ} {out out' : List UInt8} {s : List Char} :
      Rest (some out.length) out s out' c' → Rest none out (':' :: s) out' c'

theorem Rest.length_le (h : Rest c out text out' c') : out.length ≤ out'.length := by
  induction h with
  | done => exact le_rfl
  | group | ipv4 => simp
  | next _ _ _ ih =>
    rw [length_append] at ih
    omega
  | colon _ ih => exact ih

/-! ### The texts that the loop accepts -/

theorem Groups.ne_nil (h : Groups tail text bs) : text ≠ [] := by
  cases h with
  | one hg => exact hg.ne_nil
  | ipv4 _ h =>
    rintro rfl
    obtain ⟨hdotted, -⟩ := h
    generalize hs : ([] : List Char) = s at hdotted
    cases hdotted with
    | one ha => exact ha.ne_nil hs.symm
    | cons => simp at hs
  | cons => simp

theorem Groups.rest (h : Groups true text bs) : Rest c out text (out ++ bs) c := by
  induction h generalizing out with
  | one hg => exact .group hg
  | ipv4 _ hs => exact .ipv4 hs
  | @cons g s w bs hg hs ih =>
    rw [← append_assoc]
    exact .next hg hs.ne_nil ih

theorem Side.rest {p : ℕ} (h : Side true text bs) :
    Rest (some p) out text (out ++ bs) (some p) := by
  obtain ⟨rfl, rfl⟩ | h := h
  · rw [append_nil]
    exact .done
  · exact h.rest

theorem Groups.rest_compressed {r : List Char} {rb : List UInt8} (h : Groups false text bs)
    (hr : Side true r rb) :
    Rest none out (text ++ ':' :: ':' :: r) (out ++ bs ++ rb) (some (out.length + bs.length)) := by
  induction h generalizing out with
  | @one g w hg =>
    refine .next hg (by simp) (.colon ?_)
    rw [length_append]
    exact hr.rest
  | ipv4 htail _ => cases htail
  | @cons g s w bs hg hs ih =>
    have hrest : Rest none out (g ++ ':' :: (s ++ ':' :: ':' :: r)) _ _ :=
      .next hg (by simp) ih
    simpa [Nat.add_assoc] using hrest

theorem Rest.side (h : Rest c out text out' c') : ∀ p, c = some p →
    ∃ bs, Side true text bs ∧ out' = out ++ bs ∧ c' = some p := by
  induction h with
  | done =>
    intro p hp
    exact ⟨[], .inl ⟨rfl, rfl⟩, by simp, hp⟩
  | group hg => exact fun p hp => ⟨_, .inr (.one hg), rfl, hp⟩
  | ipv4 hs => exact fun p hp => ⟨_, .inr (.ipv4 rfl hs), rfl, hp⟩
  | next hg hne _ ih =>
    intro p hp
    obtain ⟨bs, hside, rfl, rfl⟩ := ih p hp
    obtain ⟨rfl, -⟩ | hside := hside
    · exact absurd rfl hne
    · exact ⟨_, .inr (.cons hg hside), by simp, rfl⟩
  | colon _ ih => simp

/-- Before `::` the text is one without it, or what has been begun leads to it. -/
theorem Rest.groups (h : Rest c out text out' c') : c = none →
    (∃ bs, Groups true text bs ∧ out' = out ++ bs ∧ c' = none) ∨
      (∃ r rb, text = ':' :: r ∧ Side true r rb ∧ out' = out ++ rb ∧ c' = some out.length) ∨
      ∃ l r lb rb, text = l ++ ':' :: ':' :: r ∧ Groups false l lb ∧ Side true r rb ∧
        out' = out ++ lb ++ rb ∧ c' = some (out.length + lb.length) := by
  induction h with
  | done => simp
  | group hg => exact fun hc => .inl ⟨_, .one hg, rfl, hc⟩
  | ipv4 hs => exact fun hc => .inl ⟨_, .ipv4 rfl hs, rfl, hc⟩
  | @next c c' out out' g s w hg hne _ ih =>
    intro hc
    obtain ⟨bs, hs, rfl, hc'⟩ | ⟨r, rb, rfl, hr, rfl, hc'⟩ | ⟨l, r, lb, rb, rfl, hl, hr, rfl, hc'⟩ :=
      ih hc
    · exact .inl ⟨_, .cons hg hs, by simp, hc'⟩
    · refine .inr (.inr ⟨g, r, _, rb, rfl, .one hg, hr, rfl, ?_⟩)
      rw [hc', length_append]
    · refine .inr (.inr ⟨g ++ ':' :: l, r, _, rb, by simp, .cons hg hl, hr, by simp, ?_⟩)
      rw [hc', length_append, length_append, Nat.add_assoc]
  | colon h _ =>
    intro _
    obtain ⟨rb, hside, rfl, hc'⟩ := h.side _ rfl
    exact .inr (.inl ⟨_, rb, rfl, hside, rfl, hc'⟩)

/-! ### The scratch array -/

/-- The array `tmp` when `out` has been written. -/
def scratch (out : List UInt8) : List UInt8 := out ++ List.replicate (16 - out.length) 0

theorem length_scratch (hout : out.length ≤ 16) : (scratch out).length = 16 := by
  rw [scratch, length_append, length_replicate]
  omega

theorem scratch_set {b : UInt8} (hout : out.length < 16) :
    (scratch out).set out.length b = scratch (out ++ [b]) := by
  obtain ⟨k, hk⟩ : ∃ k, 16 - out.length = k + 1 := ⟨15 - out.length, by omega⟩
  have hk' : 16 - (out ++ [b]).length = k := by
    rw [length_append, length_singleton]
    omega
  rw [scratch, scratch, hk, hk', replicate_succ]
  simp

theorem scratch_write (hbs : bs.length = 4) :
    (scratch out).take out.length ++ bs ++ (scratch out).drop (out.length + 4) =
      scratch (out ++ bs) := by
  have hlength : 16 - (out ++ bs).length = 16 - out.length - 4 := by
    rw [length_append]
    omega
  rw [scratch, scratch, hlength, take_left, drop_append,
    drop_of_length_le (by omega), drop_replicate, nil_append]
  congr 3
  omega

/-- What the loop has read of the text: the bytes `out`, then the digits `g`, which start the
current token. -/
structure Pton6Read (s : Pton6) (out : List UInt8) (g src : List Char) : Prop where
  tmp : s.tmp = scratch out
  tp : s.tp = out.length
  room : out.length ≤ 16
  curtok : s.curtok = g ++ src
  seen : s.seenXdigits = g.length
  length : g.length ≤ 4
  val : Numeral 16 g s.val

theorem Pton6Read.group (hread : Pton6Read s out g src) (hg : g ≠ []) : Group g s.val :=
  ⟨hread.val, hg, hread.length⟩

theorem shiftLeft_or_digit {n d : ℕ} (hlt : d < 16) : n <<< 4 ||| d = 16 * n + d := by
  rw [← shiftLeft_add_eq_or_of_lt hlt, shiftLeft_eq, Nat.mul_comm]

theorem Pton6Read.digit {ch : Char} (hread : Pton6Read s out g (ch :: src))
    (hch : digitValue ch = some d) (hlt : d < 16) (hlength : g.length + 1 ≤ 4) :
    Pton6Read { s with val := s.val <<< 4 ||| d, seenXdigits := s.seenXdigits + 1 } out (g ++ [ch])
      src where
  tmp := hread.tmp
  tp := hread.tp
  room := hread.room
  curtok := by simpa using hread.curtok
  seen := by simpa using hread.seen
  length := by simpa using hlength
  val := by
    rw [shiftLeft_or_digit hlt]
    exact hread.val.snoc hch hlt

theorem putByte_eq {b : ℕ} (htmp : s.tmp = scratch out) (htp : s.tp = out.length)
    (hout : out.length < 16) :
    putByte s b = .ok { s with tmp := scratch (out ++ [.ofNat b]), tp := out.length + 1 } := by
  rw [putByte, htmp, length_scratch hout.le, htp, if_pos hout, scratch_set hout]

theorem putGroup_eq (htmp : s.tmp = scratch out) (htp : s.tp = out.length)
    (hval : s.val < 65536) :
    putGroup s =
      if out.length + 2 ≤ 16 then
        .ok { s with tmp := scratch (out ++ groupBytes s.val), tp := out.length + 2 }
      else .error .einval := by
  have hhigh : s.val >>> 8 &&& 0xff = s.val / 256 := by
    rw [shiftRight_eq_div_pow]
    change s.val / 256 &&& (2 ^ 8 - 1) = _
    rw [and_two_pow_sub_one_eq_mod]
    omega
  have hlow : s.val &&& 0xff = s.val % 256 := and_two_pow_sub_one_eq_mod s.val 8
  rw [putGroup, hhigh]
  by_cases hroom : out.length + 2 ≤ 16
  · rw [if_neg (by unfold endp; omega), if_pos hroom, putByte_eq htmp htp (by omega)]
    change putByte _ (s.val &&& 0xff) = _
    have hlength : (out ++ [UInt8.ofNat (s.val / 256)]).length = out.length + 1 := by simp
    rw [hlow, putByte_eq rfl hlength.symm (by omega)]
    simp [groupBytes]
  · rw [if_pos (by unfold endp; omega), if_neg hroom]

theorem pton6Loop_digits {rest : List Char} (hg : Numeral 16 g w) (hlength : g.length ≤ 4)
    (hseen : s.seenXdigits = 0) (hval : s.val = 0) :
    pton6Loop s (g ++ rest) = pton6Loop { s with val := w, seenXdigits := g.length } rest := by
  induction hg generalizing rest with
  | nil =>
    obtain ⟨tmp, tp, colonp, curtok, seenXdigits, val⟩ := s
    dsimp only at hseen hval
    rw [hseen, hval]
    rfl
  | @snoc g c n d hs hd hlt ih =>
    rw [length_append, length_singleton] at hlength
    rw [append_assoc, ih (by omega), singleton_append, pton6Loop, xdigit_eq, hd]
    dsimp only
    rw [if_neg (by omega), shiftLeft_or_digit hlt, length_append, length_singleton]

/-! ### The shift -/

theorem set_set_append {A Z D : List UInt8} {x z : UInt8} :
    ((A ++ x :: (Z ++ z :: D)).set (A.length + Z.length + 1) x).set A.length 0 =
      A ++ 0 :: (Z ++ x :: D) := by
  simp [Nat.add_assoc]

theorem shift_eq (pre mid : List UInt8) {k m : ℕ} (hlength : pre.length + mid.length + (k + 1) = 16)
    (hm : m ≤ mid.length) :
    (List.range' 1 m).foldlM (shiftByte pre.length mid.length)
        (pre ++ mid ++ List.replicate (k + 1) 0) =
      .ok (pre ++ mid.take (mid.length - m) ++ List.replicate (k + 1) 0 ++
        mid.drop (mid.length - m)) := by
  induction m with
  | zero => simp [pure, Except.pure]
  | succ m ih =>
    -- the byte that moves in this turn
    obtain ⟨j, hj⟩ : ∃ j, mid.length - m = j + 1 := ⟨mid.length - m - 1, by omega⟩
    have hjlt : j < mid.length := by omega
    have hj' : mid.length - (m + 1) = j := by omega
    have htake : mid.take (j + 1) = mid.take j ++ [mid[j]] := (take_append_getElem hjlt).symm
    have hdrop : mid.drop j = mid[j] :: mid.drop (j + 1) := drop_eq_getElem_cons hjlt
    have hA : (pre ++ mid.take j).length = pre.length + j := by
      rw [length_append, length_take]
      omega
    have harray : pre ++ mid.take (j + 1) ++ replicate (k + 1) 0 ++ mid.drop (j + 1) =
        (pre ++ mid.take j) ++ mid[j] :: (replicate k 0 ++ 0 :: mid.drop (j + 1)) := by
      rw [htake, replicate_succ']
      simp only [append_assoc, cons_append, nil_append]
    have hget : ((pre ++ mid.take j) ++ mid[j] :: (replicate k 0 ++
        0 :: mid.drop (j + 1)))[pre.length + j]? = some mid[j] := by
      rw [← hA, List.getElem?_append_right le_rfl, Nat.sub_self, List.getElem?_cons_zero]
    rw [range'_1_concat, foldlM_append, ih (by omega), hj, hj', harray]
    change shiftByte _ _ _ _ >>= _ = _
    rw [shiftByte]
    have hindex : pre.length + mid.length - (1 + m) = pre.length + j := by omega
    have htarget : endp - (1 + m) = (pre ++ mid.take j).length + (replicate k (0 : UInt8)).length
        + 1 := by
      rw [length_replicate]
      unfold endp
      omega
    have hbound : endp - (1 + m) < ((pre ++ mid.take j) ++ mid[j] ::
        (replicate k 0 ++ 0 :: mid.drop (j + 1))).length := by
      rw [htarget]
      simp only [length_append, length_cons]
      omega
    rw [hindex, hget]
    dsimp only
    rw [if_pos hbound, htarget, ← hA, set_set_append, replicate_succ]
    simp

def expand (out : List UInt8) : Option ℕ → List UInt8
  | none => out
  | some p => out.take p ++ List.replicate (16 - out.length) 0 ++ out.drop p

/-- With `::` fewer than sixteen bytes are written, else sixteen. -/
def Complete (out : List UInt8) (c : Option ℕ) : Prop :=
  if c.isSome then out.length < 16 else out.length = 16

theorem pton6Shift_eq (htmp : s.tmp = scratch out) (htp : s.tp = out.length)
    (hroom : out.length ≤ 16) (hc : ∀ p, s.colonp = some p → p ≤ out.length) :
    (Complete out s.colonp → pton6Shift s = .ok (expand out s.colonp)) ∧
      (¬ Complete out s.colonp → pton6Shift s = .error .einval) := by
  rw [pton6Shift, htp, endp]
  cases hcolon : s.colonp with
  | none =>
    simp only [Complete, isSome_none, Bool.false_eq_true, if_false]
    constructor
    · intro hfull
      rw [htmp, scratch, hfull]
      simp [expand]
    · intro hfull
      rw [if_neg hfull]
  | some p =>
    simp only [Complete, isSome_some, if_true]
    constructor
    · intro hlt
      have hp := hc p hcolon
      obtain ⟨k, hk⟩ : ∃ k, 16 - out.length = k + 1 := ⟨15 - out.length, by omega⟩
      have hpre : (out.take p).length = p := length_take_of_le hp
      have hmid : (out.drop p).length = out.length - p := length_drop
      have hshift := shift_eq (out.take p) (out.drop p) (k := k) (m := (out.drop p).length)
        (by omega) le_rfl
      rw [hpre, hmid, take_append_drop, ← hk] at hshift
      rw [if_neg (by omega), htmp, scratch, hshift, expand]
      simp
    · intro hge
      rw [if_pos (by omega)]

/-! ### The loop -/

theorem IPv4Text.split (h : IPv4Text text bs) :
    ∃ a rest v, text = a ++ '.' :: rest ∧ Octet a v := by
  obtain ⟨hdotted, hlength⟩ := h
  cases hdotted with
  | one => simp at hlength
  | cons ha _ => exact ⟨_, _, _, rfl, ha⟩

/-- The loop fails with `EINVAL` only, and what it reads to the end meets `Rest`. -/
theorem pton6Loop_sound (hread : Pton6Read s out g src)
    (hne : s.colonp = none → g ++ src ≠ []) :
    (∀ e, (pton6Loop s src).bind lastGroup = .error e → e = .einval) ∧
      ∀ s', (pton6Loop s src).bind lastGroup = .ok s' →
        ∃ out', Rest s.colonp out (g ++ src) out' s'.colonp ∧ s'.tmp = scratch out' ∧
          s'.tp = out'.length ∧ out'.length ≤ 16 := by
  induction src generalizing s out g with
  | nil =>
    rw [append_nil]
    change (∀ e, lastGroup s = .error e → _) ∧ ∀ s', lastGroup s = .ok s' → _
    rw [lastGroup, hread.seen]
    split_ifs with hg
    · obtain rfl := length_eq_zero_iff.mp hg
      refine ⟨by simp, ?_⟩
      intro s' hs'
      obtain rfl := Except.ok.inj hs'
      refine ⟨out, ?_, hread.tmp, hread.tp, hread.room⟩
      cases hcolon : s.colonp with
      | none => exact absurd rfl (hne hcolon)
      | some p => exact .done
    · have hgroup := hread.group (fun h => hg (length_eq_zero_iff.mpr h))
      rw [putGroup_eq hread.tmp hread.tp hgroup.lt]
      split_ifs with hroom
      · refine ⟨by simp, ?_⟩
        intro s' hs'
        obtain rfl := Except.ok.inj hs'
        exact ⟨_, .group hgroup, rfl, by simp [groupBytes], by simpa [groupBytes] using hroom⟩
      · simp [eq_comm]
  | cons ch src ih =>
    rw [pton6Loop]
    cases hx : xdigit ch with
    | some d =>
      rw [xdigit_eq] at hx
      dsimp only
      split_ifs with hfour
      · simp [Except.bind, eq_comm]
      · have hlt : d < 16 := digitValue_lt hx
        have hassoc : g ++ ch :: src = (g ++ [ch]) ++ src := by simp
        have hread' := hread.digit hx hlt (by rw [← hread.seen]; omega)
        rw [hassoc]
        exact ih hread' (by simp)
    | none =>
      dsimp only
      split_ifs with hcolon hseen hsecond hend hdot
      · simp [Except.bind, eq_comm]
      · -- the second colon of `::`
        subst hcolon
        obtain rfl : g = [] := length_eq_zero_iff.mp (hread.seen.symm.trans hseen)
        have hnone : s.colonp = none := by simpa using hsecond
        have hread' : Pton6Read { s with curtok := src, colonp := some s.tp } out [] src :=
          { hread with curtok := rfl }
        obtain ⟨herr, hok⟩ := ih hread' (by simp)
        refine ⟨herr, ?_⟩
        intro s' hs'
        obtain ⟨out', hrest, hout'⟩ := hok s' hs'
        refine ⟨out', ?_, hout'⟩
        rw [hnone]
        rw [hread.tp] at hrest
        exact .colon hrest
      · simp [Except.bind, eq_comm]
      · -- a colon that ends a group
        subst hcolon
        have hgroup := hread.group (fun h => hseen (by rw [hread.seen, h]; rfl))
        rw [putGroup_eq (s := { s with curtok := src }) hread.tmp hread.tp hgroup.lt]
        split_ifs with hroom
        · have hlength : (out ++ groupBytes s.val).length = out.length + 2 := by simp [groupBytes]
          have hread' : Pton6Read ⟨scratch (out ++ groupBytes s.val), out.length + 2, s.colonp, src,
              0, 0⟩ (out ++ groupBytes s.val) [] src :=
            ⟨rfl, hlength.symm, hlength.trans_le hroom, rfl, rfl, by simp, .nil⟩
          obtain ⟨herr, hok⟩ := ih hread' (fun _ => hend)
          refine ⟨herr, ?_⟩
          intro s' hs'
          obtain ⟨out', hrest, hout'⟩ := hok s' hs'
          exact ⟨out', .next hgroup hend hrest, hout'⟩
        · simp [Except.bind, eq_comm]
      · -- the tail is read again from its first digit
        by_cases htext : ∃ bs, IPv4Text s.curtok bs
        · obtain ⟨bs, htext⟩ := htext
          have hfour : out.length + 4 ≤ 16 := by
            have htp := hdot.2
            rwa [hread.tp] at htp
          rw [hread.tmp, hread.tp, inetPton4_of_text htext (by rwa [length_scratch hread.room])]
          rw [hread.curtok] at htext
          rw [scratch_write htext.length]
          have hlength : (out ++ bs).length = out.length + 4 := by
            rw [length_append, htext.length]
          refine ⟨by simp [Except.bind, lastGroup], ?_⟩
          intro s' hs'
          obtain rfl := Except.ok.inj hs'
          exact ⟨out ++ bs, .ipv4 htext, rfl, hlength.symm, hlength.trans_le hfour⟩
        · rw [inetPton4_of_not_text fun bs hbs => htext ⟨bs, hbs⟩]
          simp [Except.bind, eq_comm]
      · simp [Except.bind, eq_comm]

theorem pton6Loop_complete (h : Rest c out text out' c') (hout : out'.length ≤ 16)
    (hread : Pton6Read s out [] text) (hc : s.colonp = c) :
    ∃ s', (pton6Loop s text).bind lastGroup = .ok s' ∧ s'.tmp = scratch out' ∧
      s'.tp = out'.length ∧ s'.colonp = c' := by
  induction h generalizing s with
  | done =>
    refine ⟨s, ?_, hread.tmp, hread.tp, hc⟩
    change lastGroup s = _
    rw [lastGroup, hread.seen]
    rfl
  | @group c out g w hg =>
    have hdigits : pton6Loop s (g ++ []) =
        pton6Loop { s with val := w, seenXdigits := g.length } [] :=
      pton6Loop_digits hg.numeral hg.length hread.seen (hread.val.unique .nil)
    rw [append_nil] at hdigits
    have hlength : (out ++ groupBytes w).length = out.length + 2 := by simp [groupBytes]
    have hne : g.length ≠ 0 := fun h => hg.ne_nil (length_eq_zero_iff.mp h)
    refine ⟨⟨scratch (out ++ groupBytes w), out.length + 2, s.colonp, s.curtok, g.length, w⟩, ?_,
      rfl, hlength.symm, hc⟩
    rw [hdigits]
    change lastGroup _ = _
    rw [lastGroup, if_neg hne,
      putGroup_eq (s := { s with val := w, seenXdigits := g.length }) hread.tmp hread.tp hg.lt,
      if_pos (hlength ▸ hout)]
  | @ipv4 c out t bs ht =>
    obtain ⟨a, rest, v, rfl, ha⟩ := ht.split
    obtain ⟨w, hw⟩ := ha.numeral.mono (by omega : 10 ≤ 16)
    have hlength : (out ++ bs).length = out.length + 4 := by
      rw [length_append, ht.length]
    have hx : xdigit '.' = none := by decide
    have hcurtok : s.curtok = a ++ '.' :: rest := hread.curtok
    refine ⟨⟨scratch (out ++ bs), out.length + 4, s.colonp, s.curtok, 0, w⟩, ?_, rfl,
      hlength.symm, hc⟩
    rw [pton6Loop_digits hw (ha.length_le.trans (by omega)) hread.seen (hread.val.unique .nil),
      pton6Loop, hx]
    rw [if_neg (by decide), if_pos ⟨rfl, by rw [hread.tp, endp]; omega⟩, hcurtok, hread.tmp,
      hread.tp, inetPton4_of_text ht (by rw [length_scratch hread.room]; omega),
      scratch_write ht.length]
    rfl
  | @next c c' out out' g t w hg hne hrest ih =>
    have hlength : (out ++ groupBytes w).length = out.length + 2 := by simp [groupBytes]
    have hroom : out.length + 2 ≤ 16 := by
      have hle := hrest.length_le
      omega
    have hread' : Pton6Read ⟨scratch (out ++ groupBytes w), out.length + 2, s.colonp, t, 0, 0⟩
        (out ++ groupBytes w) [] t :=
      ⟨rfl, hlength.symm, hlength.trans_le hroom, rfl, rfl, by simp, .nil⟩
    obtain ⟨s', hs', hend⟩ := ih hout hread' hc
    refine ⟨s', ?_, hend⟩
    have hx : xdigit ':' = none := by decide
    have hg0 : g.length ≠ 0 := fun h => hg.ne_nil (length_eq_zero_iff.mp h)
    rw [pton6Loop_digits hg.numeral hg.length hread.seen (hread.val.unique .nil), pton6Loop]
    rw [if_pos rfl, if_neg hg0, if_neg hne, putGroup_eq
      (s := { s with val := w, seenXdigits := g.length, curtok := t }) hread.tmp hread.tp hg.lt,
      if_pos hroom]
    exact hs'
  | @colon c' out out' t hrest ih =>
    have hread' : Pton6Read { s with curtok := t, colonp := some s.tp } out [] t :=
      { hread with curtok := rfl }
    obtain ⟨s', hs', hend⟩ := ih hout hread' (congrArg some hread.tp)
    refine ⟨s', ?_, hend⟩
    have hx : xdigit ':' = none := by decide
    have hseen : s.seenXdigits = 0 := hread.seen
    rw [pton6Loop, hx]
    rw [if_pos rfl, if_pos hseen, if_neg (by simp [hc])]
    exact hs'

/-! ### `inet_pton6` -/

theorem head_append {s t : List Char} {ch : Char} (hs : s ≠ []) (hhead : s.head? ≠ some ch) :
    (s ++ t).head? ≠ some ch := by
  cases s with
  | nil => exact absurd rfl hs
  | cons c s => simpa using hhead

theorem Groups.head (h : Groups tail text bs) : text.head? ≠ some ':' := by
  cases h with
  | one hg => exact hg.numeral.head_ne rfl
  | ipv4 _ h =>
    obtain ⟨a, rest, v, rfl, ha⟩ := h.split
    exact head_append ha.ne_nil (ha.numeral.head_ne rfl)
  | cons hg _ => exact head_append hg.ne_nil (hg.numeral.head_ne rfl)

theorem Groups.even (h : Groups tail text bs) : bs.length % 2 = 0 := by
  induction h with
  | one => simp [groupBytes]
  | ipv4 _ h => rw [h.length]
  | cons _ _ ih =>
    rw [length_append]
    simp only [groupBytes, length_cons, length_nil]
    omega

theorem Side.even (h : Side tail text bs) : bs.length % 2 = 0 := by
  obtain ⟨-, rfl⟩ | h := h
  · rfl
  · exact h.even

/-- A complete reading is a text; if the reading began at a colon, it is the second of `::`. -/
theorem Rest.ipv6Text (h : Rest none [] text out' c') (hcomplete : Complete out' c') :
    (text.head? ≠ some ':' → IPv6Text text (expand out' c')) ∧
      ∀ r, text = ':' :: r → IPv6Text (':' :: ':' :: r) (expand out' c') := by
  obtain ⟨bs, hs, rfl, rfl⟩ | ⟨r, rb, rfl, hr, rfl, rfl⟩ | ⟨l, r, lb, rb, rfl, hl, hr, rfl, rfl⟩ :=
    h.groups rfl
  · refine ⟨fun _ => .full hs (by simpa [Complete, expand] using hcomplete), ?_⟩
    rintro r rfl
    exact absurd rfl hs.head
  · refine ⟨fun hhead => absurd rfl hhead, ?_⟩
    intro r' heq
    obtain rfl := (List.cons.inj heq).2
    have hlt : out'.length < 16 := by simpa [Complete] using hcomplete
    have heven := hr.even
    have htext := IPv6Text.compressed (.inl ⟨rfl, rfl⟩) hr (by simp; omega)
    simpa [expand] using htext
  · have hne := hl.ne_nil
    constructor
    · intro _
      have hlt : (lb ++ rb).length < 16 := by simpa [Complete] using hcomplete
      rw [length_append] at hlt
      have heven := hl.even
      have heven' := hr.even
      have htext := IPv6Text.compressed (.inr hl) hr (by omega)
      simpa [expand, Nat.sub_sub] using htext
    · intro r' heq
      exact absurd (congrArg List.head? heq) (head_append hne hl.head)

theorem pton6Parse_of_head (hhead : text.head? ≠ some ':') :
    pton6Parse text = pton6Start text := by
  unfold pton6Parse
  split <;> simp_all

theorem pton6Read_start (src : List Char) :
    Pton6Read ⟨List.replicate 16 0, 0, none, src, 0, 0⟩ [] [] src :=
  ⟨rfl, rfl, by simp, rfl, rfl, by simp, .nil⟩

theorem Rest.position_le (h : Rest c out text out' c') (hc : ∀ p, c = some p → p ≤ out.length) :
    ∀ p, c' = some p → p ≤ out'.length := by
  induction h with
  | done => exact hc
  | group | ipv4 => exact fun p hp => (hc p hp).trans (by simp)
  | next _ _ _ ih => exact ih fun p hp => (hc p hp).trans (by simp)
  | colon _ ih => exact ih fun p hp => (Option.some.inj hp).ge

theorem pton6Start_of_rest (h : Rest none [] text out' c') (hcomplete : Complete out' c') :
    pton6Start text = .ok (expand out' c') := by
  have hout : out'.length ≤ 16 := by
    rw [Complete] at hcomplete
    split_ifs at hcomplete <;> omega
  obtain ⟨s', hs', htmp, htp, rfl⟩ := pton6Loop_complete h hout (pton6Read_start text) rfl
  rw [pton6Start, hs']
  exact (pton6Shift_eq htmp htp hout (h.position_le (by simp))).1 hcomplete

theorem pton6Start_sound (hne : text ≠ []) :
    (∃ out' c', Rest none [] text out' c' ∧ Complete out' c') ∨
      pton6Start text = .error .einval := by
  obtain ⟨herr, hok⟩ := pton6Loop_sound (pton6Read_start text) fun _ => hne
  rw [pton6Start]
  cases hloop : (pton6Loop ⟨replicate 16 0, 0, none, text, 0, 0⟩ text).bind lastGroup with
  | error e =>
    right
    rw [herr e hloop]
    rfl
  | ok s' =>
    obtain ⟨out', hrest, htmp, htp, hout⟩ := hok s' hloop
    by_cases hcomplete : Complete out' s'.colonp
    · exact .inl ⟨out', s'.colonp, hrest, hcomplete⟩
    · right
      exact (pton6Shift_eq htmp htp hout (hrest.position_le (by simp))).2 hcomplete

theorem pton6Parse_of_text (h : IPv6Text src bs) : pton6Parse src = .ok bs := by
  cases h with
  | full hs hlength =>
    rw [pton6Parse_of_head hs.head]
    have hrest : Rest none [] src ([] ++ bs) none := hs.rest
    have hstart := pton6Start_of_rest hrest (by simpa [Complete] using hlength)
    simpa [expand] using hstart
  | @compressed l r lb rb hl hr hlength =>
    obtain ⟨rfl, rfl⟩ | hl := hl
    · have hrest : Rest none [] (':' :: r) ([] ++ rb) (some 0) := .colon hr.rest
      have hstart := pton6Start_of_rest hrest (by
        simp only [Complete, isSome_some, if_true, nil_append]
        omega)
      simpa [pton6Parse, expand] using hstart
    · rw [pton6Parse_of_head (head_append hl.ne_nil hl.head)]
      have hrest : Rest none [] (l ++ ':' :: ':' :: r) ([] ++ lb ++ rb) _ := hl.rest_compressed hr
      have hstart := pton6Start_of_rest hrest (by
        simp only [Complete, isSome_some, if_true, nil_append, length_append]
        omega)
      simpa [expand, Nat.sub_sub] using hstart

theorem pton6Parse_of_not_text (h : ∀ bs, ¬ IPv6Text src bs) :
    pton6Parse src = .error .einval := by
  unfold pton6Parse
  split
  · rename_i r
    obtain ⟨out', c', hrest, hcomplete⟩ | herr := pton6Start_sound (cons_ne_nil ':' r)
    · exact absurd ((hrest.ipv6Text hcomplete).2 _ rfl) (h _)
    · exact herr
  · rfl
  · rename_i hdouble hsingle
    by_cases hne : src = []
    · subst hne
      decide
    · have hhead : src.head? ≠ some ':' := by
        intro hhead
        obtain ⟨t, ht⟩ := List.head?_eq_some_iff.mp hhead
        exact hsingle t ht
      obtain ⟨out', c', hrest, hcomplete⟩ | herr := pton6Start_sound hne
      · exact absurd ((hrest.ipv6Text hcomplete).1 hhead) (h _)
      · exact herr

theorem inetPton6_of_text (h : IPv6Text src bs) (hdst : 16 ≤ dst.length) :
    inetPton6 src dst = some (.ok, bs ++ dst.drop 16) := by
  rw [inetPton6, pton6Parse_of_text h]
  dsimp only
  rw [memcpy_eq h.length (by omega)]
  simp

theorem inetPton6_of_not_text (h : ∀ bs, ¬ IPv6Text src bs) :
    inetPton6 src dst = some (.einval, dst) := by
  rw [inetPton6, pton6Parse_of_not_text h]

/-- The result of a reader that writes `n` bytes: it succeeds just if the string is a text, and
then writes the bytes of the text; otherwise the destination stays as it is. That there is a
result says that no access is out of bounds. -/
def Accepts (text : List UInt8 → Prop) (n : ℕ) (dst : List UInt8)
    (r : Option (Status × List UInt8)) : Prop :=
  ∃ status dst', r = some (status, dst') ∧ (status = .ok ↔ ∃ bs, text bs) ∧
    (∀ bs, text bs → dst' = bs ++ dst.drop n) ∧ (status ≠ .ok → status = .einval ∧ dst' = dst)

theorem Accepts.of {text : List UInt8 → Prop} {n : ℕ} {r : Option (Status × List UInt8)}
    (hok : ∀ bs, text bs → r = some (.ok, bs ++ dst.drop n))
    (herr : (∀ bs, ¬ text bs) → r = some (.einval, dst)) : Accepts text n dst r := by
  by_cases htext : ∃ bs, text bs
  · obtain ⟨bs, hbs⟩ := htext
    refine ⟨.ok, bs ++ dst.drop n, hok bs hbs, ⟨fun _ => ⟨bs, hbs⟩, fun _ => rfl⟩, ?_, by simp⟩
    intro bs' hbs'
    have heq := (hok bs hbs).symm.trans (hok bs' hbs')
    simpa using heq
  · refine ⟨.einval, dst, herr fun bs hbs => htext ⟨bs, hbs⟩, ?_, ?_, fun _ => ⟨rfl, rfl⟩⟩
    · simp [htext]
    · exact fun bs hbs => absurd ⟨bs, hbs⟩ htext

/-- `inet_pton4` and `inet_pton6` accept exactly the texts of their family. -/
theorem inetPton_accepts (src : List Char) (dst : List UInt8) :
    (4 ≤ dst.length → Accepts (IPv4Text src) 4 dst (inetPton4 src dst 0)) ∧
      (16 ≤ dst.length → Accepts (IPv6Text src) 16 dst (inetPton6 src dst)) := by
  constructor
  · intro hdst
    refine .of ?_ inetPton4_of_not_text
    intro bs hbs
    rw [inetPton4_of_text hbs (by omega)]
    simp
  · intro hdst
    exact .of (fun bs hbs => inetPton6_of_text hbs hdst) inetPton6_of_not_text

/-- The text of the IPv6 loopback address, for either reader. -/
theorem inetPton_accepts_loopback :
    Accepts (IPv4Text "::1".toList) 4 (List.replicate 16 7)
        (inetPton4 "::1".toList (List.replicate 16 7) 0) ∧
      Accepts (IPv6Text "::1".toList) 16 (List.replicate 16 7)
        (inetPton6 "::1".toList (List.replicate 16 7)) :=
  ⟨(inetPton_accepts _ _).1 (by decide), (inetPton_accepts _ _).2 (by decide)⟩

end LibuvWorks.Inet
