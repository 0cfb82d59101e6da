import LibuvWorks.Win.TtyWrites
import Mathlib.Algebra.Group.Nat.Defs

/-!
# The utf-8 decoder of the console

The code points that `uv_tty_write_bufs` hands to the parser of escape sequences, for the two bit
scans it can be compiled with.
-/
namespace LibuvWorks.Win

open Transducer List Nat

namespace TtyWr

/-! ### What the parser is handed -/

def emitted (w : TtyWr) : List UInt32 := if w.utf8BytesLeft = 0 then [w.utf8Codepoint] else []

/-- A byte in the decoder, which can come again as a start byte. -/
def decodeByte (cc : Compiler) (w : TtyWr) (c : UInt8) : TtyWr × List UInt32 :=
  let r := w.decode cc c
  if r.2 = true then
    let r' := r.1.decode cc c
    (r'.1, emitted r.1 ++ emitted r'.1)
  else (r.1, emitted r.1)

def handed (cc : Compiler) : TtyWr → List UInt8 → List UInt32
  | _, [] => []
  | w, c :: cs => (w.decodeByte cc c).2 ++ handed cc (w.decodeByte cc c).1 cs

def decoded (cc : Compiler) (w : TtyWr) (cs : List UInt8) : TtyWr :=
  cs.foldl (fun w c => (w.decodeByte cc c).1) w

/-- `__builtin_clz` is defined for the byte. -/
def ScanDefined (cc : Compiler) (w : TtyWr) (c : UInt8) : Prop :=
  match cc with
  | .msvc => True
  | .gcc _ => w.utf8BytesLeft = 0 → c ≠ 0 → ~~~c ≠ 0

/-- It is so for all start bytes of a stream. -/
def AllDefined (cc : Compiler) : TtyWr → List UInt8 → Prop
  | _, [] => True
  | w, c :: cs => ScanDefined cc w c ∧
    ((w.decode cc c).2 = true → ScanDefined cc (w.decode cc c).1 c) ∧
    AllDefined cc (w.decodeByte cc c).1 cs

/-! ### What it should be handed -/

abbrev IsTail (c : UInt8) : Prop := c &&& 0xc0 = 0x80

/-- How many bytes follow a start byte. The scheme goes on to seven bytes, as the original one
did. -/
def tails (c : UInt8) : Option ℕ :=
  if c < 0x80 then some 0
  else if c < 0xc0 then none
  else if c < 0xe0 then some 1
  else if c < 0xf0 then some 2
  else if c < 0xf8 then some 3
  else if c < 0xfc then some 4
  else if c < 0xfe then some 5
  else if c < 0xff then some 6
  else none

def startBits (c : UInt8) (n : ℕ) : UInt32 := .ofNat (c.toNat % 2 ^ (6 - n))

def addTail (v : UInt32) (c : UInt8) : UInt32 := (v <<< 6) ||| (c.toUInt32 &&& 0x3f)

/-- The code points of a stream: the characters of what is encoded, also where the rest is not; a
replacement for a byte that starts nothing; and one for a sequence that another byte interrupts,
which then starts something itself. A sequence at the end that is not complete has no code point
yet. What has the form of a sequence, and encodes no character, is let through. -/
inductive Decodes : List UInt8 → List UInt32 → Prop
  | nil : Decodes [] []
  | char {bs : List UInt8} {cps : List UInt32} (c : Char) :
    Decodes bs cps → Decodes (String.utf8EncodeChar c ++ bs) (c.val :: cps)
  | stray {b : UInt8} {bs : List UInt8} {cps : List UInt32} :
    tails b = none → Decodes bs cps → Decodes (b :: bs) (unicodeReplacementCharacter :: cps)
  | interrupted {b d : UInt8} {n : ℕ} {cs bs : List UInt8} {cps : List UInt32} :
    tails b = some n → cs.length < n → (∀ c ∈ cs, IsTail c) → ¬IsTail d → Decodes (d :: bs) cps →
      Decodes (b :: cs ++ d :: bs) (unicodeReplacementCharacter :: cps)
  | pending {b : UInt8} {n : ℕ} {cs : List UInt8} :
    tails b = some n → cs.length < n → (∀ c ∈ cs, IsTail c) → Decodes (b :: cs) []
  | lenient {b : UInt8} {cs bs : List UInt8} {cps : List UInt32} :
    tails b = some cs.length → (∀ c ∈ cs, IsTail c) → (∀ c, String.utf8EncodeChar c ≠ b :: cs) →
      Decodes bs cps → Decodes (b :: cs ++ bs) (cs.foldl addTail (startBits b cs.length) :: cps)

/-! ### Bytes -/

theorem forall_byte {P : UInt8 → Prop} (h : ∀ n < 256, P (UInt8.ofNat n)) (c : UInt8) : P c := by
  have hc := h c.toNat c.toNat_lt
  rwa [UInt8.ofNat_toNat] at hc

set_option maxRecDepth 8000 in
theorem isTail_iff (c : UInt8) : IsTail c ↔ 128 ≤ c.toNat ∧ c.toNat < 192 := by
  revert c
  apply forall_byte
  decide

set_option maxRecDepth 8000 in
theorem firstZeroBit_none (c : UInt8) : tails c = none →
    firstZeroBit .msvc c = some 6 ∨ firstZeroBit .msvc c = none := by
  revert c
  apply forall_byte
  decide

set_option maxRecDepth 8000 in
theorem firstZeroBit_zero (c : UInt8) : tails c = some 0 → firstZeroBit .msvc c = some 7 := by
  revert c
  apply forall_byte
  decide

set_option maxRecDepth 8000 in
theorem firstZeroBit_succ (c : UInt8) : ∀ n < 6, tails c = some (n + 1) →
    firstZeroBit .msvc c = some (UInt32.ofNat (5 - n)) ∧
      (0xff >>> (8 - UInt32.ofNat (5 - n))) &&& c.toUInt32 = startBits c (n + 1) := by
  revert c
  apply forall_byte
  decide

/-- `__builtin_clz` gives the same bit as `_BitScanReverse`, except for two bytes. -/
theorem firstZeroBit_gcc {c : UInt8} (clzZero : UInt32) (hzero : c ≠ 0) (hff : c ≠ 0xff) :
    firstZeroBit (.gcc clzZero) c = firstZeroBit .msvc c := by
  have hnot : ~~~c ≠ 0 := by
    intro habs
    apply hff
    rw [← UInt8.not_not (a := c), habs]
    rfl
  have hlog : (~~~c).toNat.log2 < 8 :=
    (log2_lt fun habs => hnot (UInt8.toNat_inj.mp habs)).mpr (~~~c).toNat_lt
  have hbit : (31 : UInt32) - UInt32.ofNat (31 - (~~~c).toNat.log2) =
      UInt32.ofNat (~~~c).toNat.log2 := by
    generalize (~~~c).toNat.log2 = n at hlog
    revert n
    decide
  simp only [firstZeroBit, hzero, hnot, ne_eq, not_false_iff, if_true, if_false, hbit]

theorem decode_gcc {w : TtyWr} {c : UInt8} (clzZero : UInt32) (hzero : c ≠ 0) (hff : c ≠ 0xff) :
    w.decode (.gcc clzZero) c = w.decode .msvc c := by
  unfold decode
  rw [firstZeroBit_gcc clzZero hzero hff]

theorem decodeByte_gcc {w : TtyWr} {c : UInt8} (clzZero : UInt32) (hzero : c ≠ 0) (hff : c ≠ 0xff) :
    w.decodeByte (.gcc clzZero) c = w.decodeByte .msvc c := by
  simp only [decodeByte, decode_gcc clzZero hzero hff]

/-! ### Steps of the decoder -/

variable {w v : TtyWr} {c b : UInt8} {n : ℕ} {cs bs : List UInt8}

def withDecoder (w : TtyWr) (cp : UInt32) (left : UInt8) : TtyWr :=
  { w with utf8Codepoint := cp, utf8BytesLeft := left }

theorem decodeByte_stray (hw : w.utf8BytesLeft = 0) (hc : tails c = none) :
    w.decodeByte .msvc c = (w.withDecoder unicodeReplacementCharacter 0,
      [unicodeReplacementCharacter]) := by
  have hdecode : w.decode .msvc c = (w.withDecoder unicodeReplacementCharacter 0, false) := by
    unfold decode withDecoder
    rw [if_pos hw, ← hw]
    obtain hbit | hbit := firstZeroBit_none c hc <;> rw [hbit] <;> rfl
  simp only [decodeByte, hdecode]
  rfl

theorem decodeByte_single (hw : w.utf8BytesLeft = 0) (hc : tails c = some 0) :
    w.decodeByte .msvc c = (w.withDecoder c.toUInt32 0, [c.toUInt32]) := by
  have hdecode : w.decode .msvc c = (w.withDecoder c.toUInt32 0, false) := by
    unfold decode withDecoder
    rw [if_pos hw, ← hw, firstZeroBit_zero c hc]
    rfl
  simp only [decodeByte, hdecode]
  rfl

theorem decodeByte_start (hw : w.utf8BytesLeft = 0) (hn : n < 6) (hc : tails c = some (n + 1)) :
    w.decodeByte .msvc c = (w.withDecoder (startBits c (n + 1)) (.ofNat (n + 1)), []) := by
  obtain ⟨hbit, hbits⟩ := firstZeroBit_succ c n hn hc
  have hleft : ∀ n < 6, UInt32.ofNat (5 - n) ≠ 7 ∧ UInt32.ofNat (5 - n) ≤ 5 ∧
      (6 - UInt32.ofNat (5 - n)).toUInt8 = UInt8.ofNat (n + 1) ∧
        UInt8.ofNat (n + 1) ≠ 0 := by decide
  obtain ⟨hseven, hfive, hleft, hne⟩ := hleft n hn
  have hdecode : w.decode .msvc c =
      (w.withDecoder (startBits c (n + 1)) (.ofNat (n + 1)), false) := by
    unfold decode withDecoder
    rw [if_pos hw, hbit]
    dsimp only
    rw [if_neg hseven, if_pos hfive, hbits, hleft]
  simp only [decodeByte, hdecode, Bool.false_eq_true, if_false]
  exact congrArg _ (if_neg hne)

theorem decodeByte_tail (hw : w.utf8BytesLeft ≠ 0) (hc : IsTail c) (cc : Compiler) :
    w.decodeByte cc c = (w.withDecoder (addTail w.utf8Codepoint c) (w.utf8BytesLeft - 1),
      emitted (w.withDecoder (addTail w.utf8Codepoint c) (w.utf8BytesLeft - 1))) := by
  have hdecode : w.decode cc c =
      (w.withDecoder (addTail w.utf8Codepoint c) (w.utf8BytesLeft - 1), false) := by
    unfold decode
    rw [if_neg hw, if_pos hc]
    rfl
  simp only [decodeByte, hdecode]
  rfl

theorem decode_start_again (hw : w.utf8BytesLeft = 0) (cc : Compiler) :
    (w.decode cc c).2 = false := by
  unfold decode
  rw [if_pos hw]
  cases firstZeroBit cc c with
  | none => rfl
  | some b =>
    dsimp only
    split_ifs <;> rfl

theorem decodeByte_of_start (hw : w.utf8BytesLeft = 0) (cc : Compiler) :
    w.decodeByte cc c = ((w.decode cc c).1, emitted (w.decode cc c).1) := by
  simp only [decodeByte, decode_start_again hw cc]
  rfl

theorem decodeByte_interrupted (hw : w.utf8BytesLeft ≠ 0) (hc : ¬IsTail c) (cc : Compiler) :
    w.decodeByte cc c =
      (((w.withDecoder unicodeReplacementCharacter 0).decodeByte cc c).1,
        unicodeReplacementCharacter ::
          ((w.withDecoder unicodeReplacementCharacter 0).decodeByte cc c).2) := by
  have hdecode : w.decode cc c = (w.withDecoder unicodeReplacementCharacter 0, true) := by
    unfold decode
    rw [if_neg hw, if_neg hc]
    rfl
  have hfresh : (w.withDecoder unicodeReplacementCharacter 0).utf8BytesLeft = 0 := rfl
  rw [decodeByte_of_start hfresh]
  simp only [decodeByte, hdecode]
  rfl

def SameDecoder (w v : TtyWr) : Prop :=
  w.utf8BytesLeft = v.utf8BytesLeft ∧ (w.utf8BytesLeft ≠ 0 → w.utf8Codepoint = v.utf8Codepoint)

theorem SameDecoder.of_zero (hw : w.utf8BytesLeft = 0) (hv : v.utf8BytesLeft = 0) :
    SameDecoder w v := ⟨hw.trans hv.symm, fun habs => absurd hw habs⟩

theorem SameDecoder.decode (h : SameDecoder w v) (cc : Compiler) (c : UInt8) :
    (w.decode cc c).1.utf8BytesLeft = (v.decode cc c).1.utf8BytesLeft ∧
      (w.decode cc c).1.utf8Codepoint = (v.decode cc c).1.utf8Codepoint ∧
      (w.decode cc c).2 = (v.decode cc c).2 := by
  obtain ⟨hleft, hcp⟩ := h
  by_cases hw : w.utf8BytesLeft = 0
  · unfold TtyWr.decode
    rw [if_pos hw, if_pos (hleft.symm.trans hw)]
    cases firstZeroBit cc c with
    | none => exact ⟨hleft, rfl, rfl⟩
    | some b =>
      dsimp only
      split_ifs
      · exact ⟨hleft, rfl, rfl⟩
      · exact ⟨rfl, rfl, rfl⟩
      · exact ⟨hleft, rfl, rfl⟩
  · unfold TtyWr.decode
    rw [if_neg hw, if_neg fun habs => hw (hleft.trans habs), hleft, hcp hw]
    split_ifs <;> exact ⟨rfl, rfl, rfl⟩

theorem SameDecoder.decodeByte (h : SameDecoder w v) (cc : Compiler) (c : UInt8) :
    (w.decodeByte cc c).2 = (v.decodeByte cc c).2 ∧
      SameDecoder (w.decodeByte cc c).1 (v.decodeByte cc c).1 := by
  obtain ⟨hleft, hcp, hagain⟩ := h.decode cc c
  have hfirst : SameDecoder (w.decode cc c).1 (v.decode cc c).1 := ⟨hleft, fun _ => hcp⟩
  obtain ⟨hleft', hcp', -⟩ := hfirst.decode cc c
  have hemitted : emitted (w.decode cc c).1 = emitted (v.decode cc c).1 := by
    rw [emitted, emitted, hleft, hcp]
  have hemitted' : emitted ((w.decode cc c).1.decode cc c).1 =
      emitted ((v.decode cc c).1.decode cc c).1 := by
    rw [emitted, emitted, hleft', hcp']
  unfold TtyWr.decodeByte
  dsimp only
  rw [hagain, hemitted, hemitted']
  split_ifs
  · exact ⟨rfl, hleft', fun _ => hcp'⟩
  · exact ⟨rfl, hfirst⟩

theorem SameDecoder.handed (h : SameDecoder w v) (cc : Compiler) (cs : List UInt8) :
    w.handed cc cs = v.handed cc cs := by
  induction cs generalizing w v with
  | nil => rfl
  | cons c cs ih =>
    obtain ⟨hcps, hnext⟩ := h.decodeByte cc c
    rw [TtyWr.handed, TtyWr.handed, hcps, ih hnext]

theorem SameDecoder.decoded (h : SameDecoder w v) (cc : Compiler) (cs : List UInt8) :
    SameDecoder (w.decoded cc cs) (v.decoded cc cs) := by
  induction cs generalizing w v with
  | nil => exact h
  | cons c cs ih => exact ih (h.decodeByte cc c).2

theorem handed_append (cc : Compiler) (w : TtyWr) (cs bs : List UInt8) :
    w.handed cc (cs ++ bs) = w.handed cc cs ++ (w.decoded cc cs).handed cc bs := by
  induction cs generalizing w with
  | nil => rfl
  | cons c cs ih =>
    rw [cons_append, handed, handed, ih, append_assoc]
    rfl

theorem ne_zero_of_lt_toNat {x : UInt8} (h : n < x.toNat) : x ≠ 0 := by
  intro habs
  rw [habs] at h
  exact absurd h (Nat.not_lt_zero n)

theorem toNat_pred {x : UInt8} (hx : x ≠ 0) : (x - 1).toNat = x.toNat - 1 := by
  have hne : x.toNat ≠ 0 := fun habs => hx (UInt8.toNat_inj.mp habs)
  have hpos : 1 ≤ x := UInt8.le_iff_toNat_le.mpr (one_le_iff_ne_zero.mpr hne)
  exact UInt8.toNat_sub_of_le x 1 hpos

theorem handed_tails (hcs : ∀ c ∈ cs, IsTail c) (hlt : cs.length < w.utf8BytesLeft.toNat)
    (cc : Compiler) : w.handed cc (cs ++ bs) =
      (w.withDecoder (cs.foldl addTail w.utf8Codepoint)
        (.ofNat (w.utf8BytesLeft.toNat - cs.length))).handed cc bs := by
  induction cs generalizing w with
  | nil =>
    apply SameDecoder.handed
    refine ⟨?_, fun _ => rfl⟩
    exact (UInt8.ofNat_toNat ..).symm
  | cons c cs ih =>
    have hcount : cs.length + 1 < w.utf8BytesLeft.toNat := hlt
    have hw : w.utf8BytesLeft ≠ 0 := ne_zero_of_lt_toNat hcount
    have hleft := toNat_pred hw
    have hleft' : w.utf8BytesLeft - 1 ≠ 0 := ne_zero_of_lt_toNat (n := 0) (by omega)
    have hemitted : emitted (w.withDecoder (addTail w.utf8Codepoint c) (w.utf8BytesLeft - 1)) = [] :=
      if_neg hleft'
    rw [cons_append, handed, decodeByte_tail hw (hcs c mem_cons_self), hemitted,
      nil_append]
    have hrest := ih (w := w.withDecoder (addTail w.utf8Codepoint c) (w.utf8BytesLeft - 1))
      (fun d hd => hcs d (mem_cons_of_mem c hd)) (by
        change cs.length < (w.utf8BytesLeft - 1).toNat
        omega)
    refine hrest.trans (congrArg (fun v : TtyWr => v.handed cc bs) ?_)
    have hsub : (w.utf8BytesLeft - 1).toNat - cs.length = w.utf8BytesLeft.toNat - (cs.length + 1) := by
      omega
    rw [length_cons, ← hsub]
    rfl

theorem handed_tails_all (hcs : ∀ c ∈ cs, IsTail c) (hlen : cs.length = w.utf8BytesLeft.toNat)
    (hne : cs ≠ []) (hv : v.utf8BytesLeft = 0) (cc : Compiler) : w.handed cc (cs ++ bs) =
      cs.foldl addTail w.utf8Codepoint :: v.handed cc bs := by
  obtain ⟨ds, d, rfl⟩ : ∃ ds d, cs = ds ++ [d] :=
    ⟨cs.dropLast, cs.getLast hne, (dropLast_concat_getLast hne).symm⟩
  rw [length_append, length_singleton] at hlen
  have hlast : (w.utf8BytesLeft.toNat - ds.length) = 1 := by omega
  have hds : ∀ c ∈ ds, IsTail c := fun c hc => hcs c (mem_append_left _ hc)
  obtain ⟨u, hu⟩ : ∃ u, u = w.withDecoder (ds.foldl addTail w.utf8Codepoint) (.ofNat 1) := ⟨_, rfl⟩
  have hbyte : u.decodeByte cc d = (u.withDecoder (addTail u.utf8Codepoint d) 0,
      [addTail u.utf8Codepoint d]) := by
    have hleft : u.utf8BytesLeft ≠ 0 := by
      rw [hu]
      exact show UInt8.ofNat 1 ≠ 0 by decide
    have hone : u.utf8BytesLeft - 1 = 0 := by
      rw [hu]
      exact show UInt8.ofNat 1 - 1 = 0 by decide
    rw [decodeByte_tail hleft (hcs d (mem_append_right _ mem_cons_self)), hone]
    rfl
  have hsame : SameDecoder (u.withDecoder (addTail u.utf8Codepoint d) 0) v := .of_zero rfl hv
  rw [append_assoc, handed_tails hds (by omega), hlast, singleton_append, ← hu, handed,
    hbyte, hsame.handed, foldl_append, hu]
  rfl

theorem tails_le (c : UInt8) : ∀ n, tails c = some n → n ≤ 6 := by
  intro n hn
  unfold tails at hn
  split_ifs at hn <;> cases hn <;> decide

theorem handed_start (hw : w.utf8BytesLeft = 0) (hb : tails b = some n) (hn : 0 < n) :
    w.handed .msvc (b :: cs) = (w.withDecoder (startBits b n) (.ofNat n)).handed .msvc cs := by
  obtain ⟨m, rfl⟩ : ∃ m, n = m + 1 := ⟨n - 1, by omega⟩
  have hle := tails_le b _ hb
  rw [handed, decodeByte_start hw (by omega) hb, nil_append]

theorem handed_sequence (hw : w.utf8BytesLeft = 0) (hb : tails b = some cs.length) (hne : cs ≠ [])
    (hcs : ∀ c ∈ cs, IsTail c) : w.handed .msvc (b :: cs ++ bs) =
      cs.foldl addTail (startBits b cs.length) :: w.handed .msvc bs := by
  have hle := tails_le b _ hb
  rw [cons_append, handed_start hw hb (length_pos_iff.mpr hne)]
  apply handed_tails_all hcs _ hne hw
  change cs.length = (UInt8.ofNat cs.length).toNat
  rw [UInt8.toNat_ofNat']
  omega

theorem handed_some (bs : List UInt8) (hw : w.utf8BytesLeft = 0) (hb : tails b = some n)
    (hlt : cs.length < n)
    (hcs : ∀ c ∈ cs, IsTail c) : ∃ v : TtyWr, v.utf8BytesLeft ≠ 0 ∧
      w.handed .msvc (b :: cs ++ bs) = v.handed .msvc bs := by
  have hle := tails_le b _ hb
  have hleft : (w.withDecoder (startBits b n) (.ofNat n)).utf8BytesLeft.toNat = n := by
    change (UInt8.ofNat n).toNat = n
    rw [UInt8.toNat_ofNat']
    omega
  rw [cons_append, handed_start hw hb (by omega), handed_tails hcs (by omega)]
  refine ⟨_, ?_, rfl⟩
  apply ne_zero_of_lt_toNat (n := 0)
  change 0 < (UInt8.ofNat _).toNat
  rw [hleft, UInt8.toNat_ofNat']
  omega

theorem handed_interrupted {d : UInt8} (hw : w.utf8BytesLeft = 0) (hb : tails b = some n)
    (hlt : cs.length < n) (hcs : ∀ c ∈ cs, IsTail c) (hd : ¬IsTail d) :
    w.handed .msvc (b :: cs ++ d :: bs) =
      unicodeReplacementCharacter :: w.handed .msvc (d :: bs) := by
  obtain ⟨v, hv, hsome⟩ := handed_some (d :: bs) hw hb hlt hcs
  have hsame : SameDecoder (v.withDecoder unicodeReplacementCharacter 0) w := .of_zero rfl hw
  obtain ⟨hcps, hnext⟩ := hsame.decodeByte .msvc d
  rw [hsome, handed, decodeByte_interrupted hv hd, handed, hcps, hnext.handed]
  rfl

/-! ### Characters -/

theorem toNat_addTail (x : UInt32) (c : UInt8) :
    (addTail x c).toNat = x.toNat * 64 % 2 ^ 32 + c.toNat % 64 := by
  have hshift : (x <<< 6).toNat = 2 ^ 6 * (x.toNat % 2 ^ 26) := by
    rw [UInt32.toNat_shiftLeft, shiftLeft_eq]
    have hsix : (6 : UInt32).toNat % 32 = 6 := rfl
    rw [hsix]
    omega
  have hbits : (c.toUInt32 &&& 0x3f).toNat = c.toNat % 2 ^ 6 := by
    rw [UInt32.toNat_and, UInt8.toNat_toUInt32]
    exact and_two_pow_sub_one_eq_mod c.toNat 6
  rw [addTail, UInt32.toNat_or, hshift, hbits,
    ← two_pow_add_eq_or_of_lt (mod_lt _ (by decide))]
  omega

theorem tails_toNat (c : UInt8) : tails c =
    if c.toNat < 128 then some 0 else if c.toNat < 192 then none else if c.toNat < 224 then some 1
    else if c.toNat < 240 then some 2 else if c.toNat < 248 then some 3
    else if c.toNat < 252 then some 4 else if c.toNat < 254 then some 5
    else if c.toNat < 255 then some 6 else none := by
  simp only [tails, UInt8.lt_iff_toNat_lt]
  rfl

theorem toNat_startBits (b : UInt8) (n : ℕ) :
    (startBits b n).toNat = b.toNat % 2 ^ (6 - n) := by
  have hlt := b.toNat_lt
  have hle : b.toNat % 2 ^ (6 - n) ≤ b.toNat := mod_le ..
  rw [startBits, UInt32.toNat_ofNat']
  omega

theorem addTail_ofNat {x : UInt32} {k : ℕ} (hx : x.toNat = k / 64) (hk : k < 2 ^ 32) :
    (addTail x (UInt8.ofNat (k % 64 + 128))).toNat = k := by
  rw [toNat_addTail, hx, UInt8.toNat_ofNat']
  omega

/-- What encodes a character is a start byte and the bytes that follow, with its bits. -/
theorem utf8EncodeChar_spec (c : Char) : ∃ b cs, String.utf8EncodeChar c = b :: cs ∧
    tails b = some cs.length ∧ (∀ d ∈ cs, IsTail d) ∧ (cs = [] → b.toUInt32 = c.val) ∧
    (cs ≠ [] → cs.foldl addTail (startBits b cs.length) = c.val) := by
  have hvalid : c.val.toNat < 0x110000 := by
    obtain h | h := c.valid
    · exact Nat.lt_trans h (by decide)
    · exact h.2
  have hvalue : ∀ x : UInt32, x.toNat = c.val.toNat → x = c.val := fun x => UInt32.toNat_inj.mp
  have htail : ∀ k, IsTail (UInt8.ofNat (k % 64 + 128)) := by
    intro k
    rw [isTail_iff, UInt8.toNat_ofNat']
    omega
  unfold String.utf8EncodeChar
  generalize hv : c.val.toNat = v at *
  dsimp only
  split_ifs with h1 h2 h3
  · refine ⟨_, _, rfl, ?_, by simp, fun _ => hvalue _ ?_, fun habs => absurd rfl habs⟩
    · rw [tails_toNat, UInt8.toNat_ofNat', if_pos (by omega)]
      rfl
    · rw [UInt8.toNat_toUInt32, UInt8.toNat_ofNat']
      omega
  · refine ⟨_, _, rfl, ?_, forall_mem_singleton.mpr (htail v), by simp, fun _ => hvalue _ ?_⟩
    · rw [tails_toNat, UInt8.toNat_ofNat', if_neg (by omega), if_neg (by omega), if_pos (by omega)]
      rfl
    · apply addTail_ofNat _ (by omega)
      rw [toNat_startBits, UInt8.toNat_ofNat']
      simp only [length_singleton]
      omega
  · refine ⟨_, _, rfl, ?_, ?_, by simp, fun _ => hvalue _ ?_⟩
    · rw [tails_toNat, UInt8.toNat_ofNat', if_neg (by omega), if_neg (by omega),
        if_neg (by omega), if_pos (by omega)]
      rfl
    · exact forall_mem_cons.mpr ⟨htail _, forall_mem_singleton.mpr (htail _)⟩
    · apply addTail_ofNat _ (by omega)
      apply addTail_ofNat _ (by omega)
      rw [toNat_startBits, UInt8.toNat_ofNat']
      simp only [length_cons, length_nil]
      omega
  · have hquot : v / 262144 ≤ 4 := by omega
    have hstart : (UInt8.ofNat (v / 262144 % 8 + 240)).toNat = v / 262144 + 240 := by
      rw [UInt8.toNat_ofNat']
      generalize v / 262144 = q at hquot
      omega
    refine ⟨_, _, rfl, ?_, ?_, by simp, fun _ => hvalue _ ?_⟩
    · rw [tails_toNat, hstart, if_neg (by omega), if_neg (by omega), if_neg (by omega),
        if_neg (by omega), if_pos (by omega)]
      rfl
    · exact forall_mem_cons.mpr ⟨htail _, forall_mem_cons.mpr
        ⟨htail _, forall_mem_singleton.mpr (htail _)⟩⟩
    · have h4096 : v / 64 / 64 = v / 4096 := by rw [Nat.div_div_eq_div_mul]
      apply addTail_ofNat _ (by omega)
      apply addTail_ofNat _ (by omega)
      rw [h4096]
      apply addTail_ofNat _ (by omega)
      rw [toNat_startBits, hstart]
      simp only [length_cons, length_nil]
      omega

theorem utf8EncodeChar_ascii (hb : tails b = some 0) : ∃ c : Char,
    String.utf8EncodeChar c = [b] ∧ c.val = b.toUInt32 := by
  have hlt : b.toNat < 128 := by
    rw [tails_toNat] at hb
    split_ifs at hb with h <;> first | exact h | cases hb
  have hvalid : b.toUInt32.isValidChar := .inl (by
    change b.toUInt32.toNat < 0xd800
    rw [UInt8.toNat_toUInt32]
    omega)
  refine ⟨⟨b.toUInt32, hvalid⟩, ?_, rfl⟩
  unfold String.utf8EncodeChar
  dsimp only
  rw [UInt8.toNat_toUInt32, if_pos (by omega), UInt8.ofNat_toNat]

theorem exists_tails (n : ℕ) (bs : List UInt8) : ∃ cs ds, bs = cs ++ ds ∧ (∀ c ∈ cs, IsTail c) ∧
    cs.length ≤ n ∧ (cs.length = n ∨ ds = [] ∨ ∃ d es, ds = d :: es ∧ ¬IsTail d) := by
  induction n generalizing bs with
  | zero => exact ⟨[], bs, rfl, by simp, Nat.le_refl _, .inl rfl⟩
  | succ n ih =>
    cases bs with
    | nil => exact ⟨[], [], rfl, by simp, Nat.zero_le _, .inr (.inl rfl)⟩
    | cons d bs =>
      by_cases hd : IsTail d
      · obtain ⟨cs, ds, rfl, hcs, hle, hend⟩ := ih bs
        refine ⟨d :: cs, ds, rfl, forall_mem_cons.mpr ⟨hd, hcs⟩, succ_le_succ hle, ?_⟩
        exact hend.imp_left (congrArg Nat.succ)
      · exact ⟨[], d :: bs, rfl, by simp, Nat.zero_le _, .inr (.inr ⟨d, bs, rfl, hd⟩)⟩

theorem handed_decodes (w : TtyWr) (hw : w.utf8BytesLeft = 0) (bs : List UInt8) :
    Decodes bs (w.handed .msvc bs) := by
  induction hlen : bs.length using Nat.strongRecOn generalizing bs with
  | ind k ih =>
    cases bs with
    | nil => exact .nil
    | cons b rest =>
      cases hb : tails b with
      | none =>
        have hrest := ih rest.length (by rw [← hlen]; exact lt_succ_self _) rest rfl
        rw [handed, decodeByte_stray hw hb, SameDecoder.handed (.of_zero rfl hw)]
        exact .stray hb hrest
      | some n =>
        obtain hn | hn := Nat.eq_zero_or_pos n
        · subst hn
          obtain ⟨c, hc, hval⟩ := utf8EncodeChar_ascii hb
          have hrest := ih rest.length (by rw [← hlen]; exact lt_succ_self _) rest rfl
          rw [handed, decodeByte_single hw hb, SameDecoder.handed (.of_zero rfl hw), ← hval]
          have hchar := Decodes.char c hrest
          rwa [hc] at hchar
        · obtain ⟨cs, ds, rfl, hcs, hle, hend⟩ := exists_tails n rest
          have hshort : ds.length < k := by
            rw [← hlen, length_cons, length_append]
            omega
          rw [← cons_append]
          by_cases hfull : cs.length = n
          · -- a whole sequence, which encodes a character or is let through
            subst hfull
            have hrest := ih _ hshort ds rfl
            rw [handed_sequence hw hb (length_pos_iff.mp hn) hcs]
            by_cases hchar : ∃ c, String.utf8EncodeChar c = b :: cs
            · obtain ⟨c, hc⟩ := hchar
              obtain ⟨b', cs', hc', -, -, -, hval⟩ := utf8EncodeChar_spec c
              obtain ⟨rfl, rfl⟩ := List.cons.inj (hc.symm.trans hc')
              rw [hval (length_pos_iff.mp hn), ← hc]
              exact .char c hrest
            · exact .lenient hb hcs (not_exists.mp hchar) hrest
          · have hlt : cs.length < n := Nat.lt_of_le_of_ne hle hfull
            obtain rfl | ⟨d, es, rfl, hd⟩ := hend.resolve_left hfull
            · obtain ⟨v, -, hsome⟩ := handed_some [] hw hb hlt hcs
              rw [hsome, append_nil]
              exact .pending hb hlt hcs
            · rw [handed_interrupted hw hb hlt hcs hd]
              exact .interrupted hb hlt hcs hd (ih _ hshort (d :: es) rfl)

/-! ### The two compilers -/

/-- For a stream of bytes, both compilers hand the parser what they should and the same, and no bit
scan is undefined. -/
structure DecodesRight (bs : List UInt8) : Prop where
  msvc : Decodes bs (init.handed .msvc bs)
  gcc : ∀ clzZero, Decodes bs (init.handed (.gcc clzZero) bs)
  same : ∀ clzZero, init.handed (.gcc clzZero) bs = init.handed .msvc bs
  defined : ∀ clzZero, AllDefined (.gcc clzZero) init bs

theorem handed_gcc (clzZero : UInt32) (w : TtyWr) (hzero : 0 ∉ bs) (hff : 0xff ∉ bs) :
    w.handed (.gcc clzZero) bs = w.handed .msvc bs ∧
      w.decoded (.gcc clzZero) bs = w.decoded .msvc bs ∧ AllDefined (.gcc clzZero) w bs := by
  induction bs generalizing w with
  | nil => exact ⟨rfl, rfl, trivial⟩
  | cons c cs ih =>
    have hc : c ≠ 0 := fun habs => hzero (habs ▸ mem_cons_self)
    have hc' : c ≠ 0xff := fun habs => hff (habs ▸ mem_cons_self)
    have hscan : ∀ v : TtyWr, ScanDefined (.gcc clzZero) v c := by
      intro v _ _ habs
      apply hc'
      rw [← UInt8.not_not (a := c), habs]
      rfl
    obtain ⟨hcps, hstate, hdefined⟩ := ih (w.decodeByte .msvc c).1
      (fun habs => hzero (mem_cons_of_mem _ habs)) fun habs => hff (mem_cons_of_mem _ habs)
    refine ⟨?_, ?_, hscan _, fun _ => hscan _, ?_⟩
    · rw [handed, handed, decodeByte_gcc clzZero hc hc', hcps]
    · rw [decoded, decoded, foldl_cons, foldl_cons, decodeByte_gcc clzZero hc hc']
      exact hstate
    · rwa [decodeByte_gcc clzZero hc hc']

theorem not_allDefined (clzZero : UInt32) (w : TtyWr) (hff : 0xff ∈ bs) :
    ¬AllDefined (.gcc clzZero) w bs := by
  intro h
  induction bs generalizing w with
  | nil => cases hff
  | cons c cs ih =>
    obtain ⟨hscan, hagain, hrest⟩ := h
    obtain rfl | hmem := mem_cons.mp hff
    · by_cases hw : w.utf8BytesLeft = 0
      · exact hscan hw (by decide) (by decide)
      · have hdecode : w.decode (.gcc clzZero) 0xff =
            (w.withDecoder unicodeReplacementCharacter 0, true) := by
          unfold decode
          rw [if_neg hw, if_neg (by decide)]
          rfl
        rw [hdecode] at hagain
        exact hagain rfl rfl (by decide) (by decide)
    · exact ih _ hmem hrest

theorem decodeByte_zero (clzZero : UInt32) (w : TtyWr) :
    ∃ cps, (w.decodeByte .msvc 0).2 = cps ++ [0] ∧
    (w.decodeByte (.gcc clzZero) 0).2 = cps ++ [unicodeReplacementCharacter] := by
  have hstart : ∀ v : TtyWr, v.utf8BytesLeft = 0 → (v.decodeByte .msvc 0).2 = [0] ∧
      (v.decodeByte (.gcc clzZero) 0).2 = [unicodeReplacementCharacter] := by
    intro v hv
    constructor <;> rw [decodeByte_of_start hv, decode, if_pos hv] <;> exact if_pos hv
  by_cases hw : w.utf8BytesLeft = 0
  · exact ⟨[], hstart w hw⟩
  · obtain ⟨hmsvc, hgcc⟩ := hstart (w.withDecoder unicodeReplacementCharacter 0) rfl
    refine ⟨[unicodeReplacementCharacter], ?_, ?_⟩ <;>
      rw [decodeByte_interrupted hw (by decide)]
    · exact congrArg _ hmsvc
    · exact congrArg _ hgcc

/-- The decoder is right in both builds if and only if the stream has no NUL and no byte of ones. -/
theorem decodesRight_iff (bs : List UInt8) : DecodesRight bs ↔ 0 ∉ bs ∧ 0xff ∉ bs := by
  constructor
  · intro h
    have hff : 0xff ∉ bs := fun habs => not_allDefined 0 init habs (h.defined 0)
    refine ⟨fun hzero => ?_, hff⟩
    obtain ⟨pre, post, rfl, hpre⟩ := List.eq_append_cons_of_mem hzero
    obtain ⟨hcps, hstate, -⟩ := handed_gcc 0 init hpre fun habs => hff (List.mem_append_left _ habs)
    obtain ⟨cps, hmsvc, hgcc⟩ := decodeByte_zero 0 (init.decoded .msvc pre)
    have hsame := h.same 0
    rw [handed_append, handed_append, hcps, hstate, handed, handed, hmsvc, hgcc,
      List.append_assoc, List.append_assoc, List.append_cancel_left_eq,
      List.append_cancel_left_eq] at hsame
    exact absurd (List.cons.inj hsame).1 (by decide)
  · rintro ⟨hzero, hff⟩
    have hsame : ∀ clzZero, init.handed (.gcc clzZero) bs = init.handed .msvc bs :=
      fun clzZero => (handed_gcc clzZero init hzero hff).1
    refine ⟨handed_decodes init rfl bs, fun clzZero => ?_, hsame, fun clzZero => ?_⟩
    · rw [hsame]
      exact handed_decodes init rfl bs
    · exact (handed_gcc clzZero init hzero hff).2.2

/-- A NUL between two letters -/
theorem decodesRight_nul : init.handed .msvc [97, 0, 98] = [97, 0, 98] ∧
    init.handed (.gcc 0) [97, 0, 98] = [97, 0xfffd, 98] ∧
    ¬DecodesRight [97, 0, 98] := by
  have hmsvc : init.handed .msvc [97, 0, 98] = [97, 0, 98] := by decide
  have hgcc : init.handed (.gcc 0) [97, 0, 98] = [97, 0xfffd, 98] := by decide
  refine ⟨hmsvc, hgcc, fun h => ?_⟩
  have hsame := h.same 0
  rw [hmsvc, hgcc] at hsame
  exact absurd hsame (by decide)

end TtyWr

end LibuvWorks.Win
