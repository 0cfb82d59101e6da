import LibuvWorks.Lib.Segments
import LibuvWorks.Win.TtyWrite
import Mathlib.Data.List.Count

/-!
# Console output through a virtual terminal: `win/tty.c`

When the console has a virtual terminal, `uv_tty_write_bufs` converts each buffer by itself with
`MultiByteToWideChar` and writes it. `MultiByteToWideChar` is a parameter: a legal character becomes
its code units, and what is illegal a replacement character; how much is replaced at once is left
open. `WriteConsoleW` does not fail here.
-/
namespace LibuvWorks.Win

open List

/-- The bytes `0x80` to `0xbf`. -/
def IsContinuation (b : UInt8) : Prop := b &&& 0xc0 = 0x80

/-- How `MultiByteToWideChar(CP_UTF8, 0, ..)` cuts its input: a legal character is converted as one,
and so is an illegal sequence, which is at most a byte and continuation bytes after it. A
continuation byte without a byte before it is illegal by itself. -/
structure MultiByteToWideChar extends Segmentation UInt8 IsContinuation where
  legal : ∀ (c : Char) (rest : List UInt8), next (String.utf8EncodeChar c ++ rest) = c.utf8Size

/-- A character in UTF-16. -/
def utf16Units (c : Char) : List UInt16 :=
  if c.val < 0x10000 then [c.val.toUInt16]
  else
    let v := c.val - 0x10000
    [(0xd800 : UInt16) + (v >>> 10).toUInt16, (0xdc00 : UInt16) + (v &&& 0x3ff).toUInt16]

def firstChar (bytes : List UInt8) : Option Char := bytes.toByteArray.utf8DecodeChar? 0

/-- What is written for a legal character or an illegal sequence. -/
def wideUnits (bytes : List UInt8) : List UInt16 :=
  match firstChar bytes with
  | some c => if c.utf8Size = bytes.length then utf16Units c else [0xfffd]
  | none => [0xfffd]

namespace MultiByteToWideChar

variable (m : MultiByteToWideChar)

def text (bytes : List UInt8) : List UInt16 := (m.segments bytes).flatMap wideUnits

/-- `MultiByteToWideChar`; it fails on an empty input. -/
def convert (bytes : List UInt8) : Option (List UInt16) :=
  if bytes = [] then none else some (m.text bytes)

end MultiByteToWideChar

/-- `uv_tty_write_bufs`: the texts that were written to the console, and whether it returns 0. -/
def uvTtyWriteVterm (m : MultiByteToWideChar) (texts : List (List UInt16)) :
    List (List UInt8) → Except Fault (List (List UInt16) × Bool)
  | [] => .ok (texts, true)
  | buf :: bufs =>
    match m.convert buf with
    | none => .ok (texts, false)
    | some wide =>
      -- the second conversion has room for all code units it counted, `utf16_buf` has not
      if wide.length > utf16BufSize then .error .crash
      else uvTtyWriteVterm m (texts ++ [wide]) bufs

/-- Successive calls: all texts, and whether all calls return 0. -/
def ttyVtermWrites (m : MultiByteToWideChar) (r : List (List UInt16) × Bool) :
    List (List (List UInt8)) → Except Fault (List (List UInt16) × Bool)
  | [] => .ok r
  | bufs :: calls =>
    match uvTtyWriteVterm m r.1 bufs with
    | .error e => .error e
    | .ok (texts, success) => ttyVtermWrites m (texts, r.2 && success) calls

/-- Nothing is written outside the buffer, no call fails, and the console gets the text of the
undivided bytes. -/
def Delivered (m : MultiByteToWideChar) (calls : List (List (List UInt8))) : Prop :=
  ∃ texts, ttyVtermWrites m ([], true) calls = .ok (texts, true) ∧
    texts.flatten = m.text calls.flatten.flatten

variable {m : MultiByteToWideChar} {bytes : List UInt8} {c : Char}

/-! ## When the calls succeed -/

/-- The buffer is converted, and its text fits in `utf16_buf`. -/
def Fitting (m : MultiByteToWideChar) (buf : List UInt8) : Prop :=
  buf ≠ [] ∧ (m.text buf).length ≤ utf16BufSize

theorem uvTtyWriteVterm_ok_iff {texts ts : List (List UInt16)} {bufs : List (List UInt8)} :
    uvTtyWriteVterm m texts bufs = .ok (ts, true) ↔
      (∀ buf ∈ bufs, Fitting m buf) ∧ ts = texts ++ bufs.map m.text := by
  induction bufs generalizing texts with
  | nil => simp [uvTtyWriteVterm, eq_comm]
  | cons buf bufs ih =>
    rw [uvTtyWriteVterm, MultiByteToWideChar.convert]
    by_cases hnil : buf = []
    · simp [hnil, Fitting]
    · rw [if_neg hnil]
      by_cases hlen : (m.text buf).length > utf16BufSize
      · have hnot : ¬ Fitting m buf := fun h => absurd h.2 (by omega)
        simp [hlen, hnot]
      · have hfit : Fitting m buf := ⟨hnil, by omega⟩
        simp only [if_neg hlen, ih, forall_mem_cons, map_cons, hfit, true_and]
        rw [append_assoc, singleton_append]

variable {r : List (List UInt16) × Bool}

theorem ttyVtermWrites_ok_iff {ts : List (List UInt16)}
    {calls : List (List (List UInt8))} :
    ttyVtermWrites m r calls = .ok (ts, true) ↔
      r.2 = true ∧ (∀ buf ∈ calls.flatten, Fitting m buf) ∧
        ts = r.1 ++ calls.flatten.map m.text := by
  induction calls generalizing r with
  | nil =>
    obtain ⟨texts, success⟩ := r
    simp [ttyVtermWrites, and_comm, eq_comm]
  | cons bufs calls ih =>
    rw [ttyVtermWrites]
    cases hcall : uvTtyWriteVterm m r.1 bufs with
    | error e =>
      have hnot : ¬ ∀ buf ∈ bufs, Fitting m buf := by
        intro hfit
        cases hcall.symm.trans (uvTtyWriteVterm_ok_iff.mpr ⟨hfit, rfl⟩)
      simp only [reduceCtorEq, flatten_cons, forall_mem_append, hnot, false_and,
        and_false]
    | ok u =>
      obtain ⟨texts, success⟩ := u
      simp only [ih, Bool.and_eq_true, flatten_cons, forall_mem_append, map_append]
      cases success with
      | true =>
        obtain ⟨hfit, rfl⟩ := uvTtyWriteVterm_ok_iff.mp hcall
        rw [append_assoc]
        tauto
      | false =>
        have hnot : ¬ ∀ buf ∈ bufs, Fitting m buf := by
          intro hfit
          cases hcall.symm.trans (uvTtyWriteVterm_ok_iff.mpr ⟨hfit, rfl⟩)
        simp [hnot]

/-! ## Code units and sequences -/

def isLowSurrogate (u : UInt16) : Bool := 0xdc00 ≤ u ∧ u ≤ 0xdfff

def leads (units : List UInt16) : ℕ := units.countP fun u => !isLowSurrogate u

theorem leads_utf16Units (c : Char) : leads (utf16Units c) = 1 := by
  have hvalid : c.val.toNat < 0xd800 ∨ 0xdfff < c.val.toNat ∧ c.val.toNat < 0x110000 := c.valid
  unfold utf16Units
  split_ifs with hbmp
  · -- the surrogates are no characters
    have hlt : c.val.toNat < 0x10000 := UInt32.lt_iff_toNat_lt.mp hbmp
    have hunit : c.val.toUInt16.toNat = c.val.toNat := by
      rw [UInt32.toNat_toUInt16, Nat.mod_eq_of_lt hlt]
    have hnot : isLowSurrogate c.val.toUInt16 = false := by
      rw [isLowSurrogate, decide_eq_false_iff_not, UInt16.le_iff_toNat_le, UInt16.le_iff_toNat_le,
        hunit]
      change ¬ (0xdc00 ≤ c.val.toNat ∧ c.val.toNat ≤ 0xdfff)
      omega
    simp [leads, hnot]
  · have hge : 0x10000 ≤ c.val.toNat := by
      rw [UInt32.lt_iff_toNat_lt] at hbmp
      exact Nat.le_of_not_lt hbmp
    have hv : (c.val - 0x10000).toNat = c.val.toNat - 0x10000 :=
      UInt32.toNat_sub_of_le _ _ (UInt32.le_iff_toNat_le.mpr hge)
    have hhigh : ((0xd800 : UInt16) + ((c.val - 0x10000) >>> 10).toUInt16).toNat =
        0xd800 + (c.val.toNat - 0x10000) / 1024 := by
      rw [UInt16.toNat_add, UInt32.toNat_toUInt16, UInt32.toNat_shiftRight, hv]
      change (0xd800 + ((c.val.toNat - 0x10000) >>> 10) % 65536) % 65536 = _
      rw [Nat.shiftRight_eq_div_pow]
      omega
    have hlow : ((0xdc00 : UInt16) + ((c.val - 0x10000) &&& 0x3ff).toUInt16).toNat =
        0xdc00 + (c.val.toNat - 0x10000) % 1024 := by
      rw [UInt16.toNat_add, UInt32.toNat_toUInt16, UInt32.toNat_and, hv]
      change (0xdc00 + ((c.val.toNat - 0x10000) &&& (2 ^ 10 - 1)) % 65536) % 65536 = _
      rw [Nat.and_two_pow_sub_one_eq_mod]
      omega
    have hfirst : isLowSurrogate ((0xd800 : UInt16) + ((c.val - 0x10000) >>> 10).toUInt16) =
        false := by
      rw [isLowSurrogate, decide_eq_false_iff_not, UInt16.le_iff_toNat_le, UInt16.le_iff_toNat_le,
        hhigh]
      change ¬ (0xdc00 ≤ _ ∧ _)
      omega
    have hsecond : isLowSurrogate ((0xdc00 : UInt16) + ((c.val - 0x10000) &&& 0x3ff).toUInt16) =
        true := by
      rw [isLowSurrogate, decide_eq_true_iff, UInt16.le_iff_toNat_le, UInt16.le_iff_toNat_le, hlow]
      change 0xdc00 ≤ _ ∧ _ ≤ 0xdfff
      omega
    simp only [leads, countP_cons, countP_nil, hfirst, hsecond]
    decide

theorem leads_wideUnits (bytes : List UInt8) : leads (wideUnits bytes) = 1 := by
  have hfffd : leads [0xfffd] = 1 := by decide
  unfold wideUnits
  cases firstChar bytes with
  | none => exact hfffd
  | some c =>
    dsimp only
    split_ifs
    · exact leads_utf16Units c
    · exact hfffd

theorem leads_flatMap (segs : List (List UInt8)) :
    leads (segs.flatMap wideUnits) = segs.length := by
  induction segs with
  | nil => exact countP_nil
  | cons seg segs ih =>
    have happend : leads (wideUnits seg ++ segs.flatMap wideUnits) =
        leads (wideUnits seg) + leads (segs.flatMap wideUnits) := countP_append
    rw [flatMap_cons, happend, leads_wideUnits, ih, length_cons, Nat.add_comm]

theorem flatMap_text_iff (bufs : List (List UInt8)) :
    bufs.flatMap m.text = m.text bufs.flatten ↔ m.Whole bufs := by
  have hparts : bufs.flatMap m.text = (bufs.flatMap m.segments).flatMap wideUnits :=
    flatMap_assoc.symm
  constructor
  · intro h
    by_contra hnot
    have hlt := Segmentation.segments_flatten_lt hnot
    have hleads := congrArg leads h
    rw [hparts, MultiByteToWideChar.text, leads_flatMap, leads_flatMap] at hleads
    omega
  · intro h
    rw [hparts, MultiByteToWideChar.text, h.segments]

/-! ## A conversion that replaces illegal bytes one by one -/

theorem continuation_bits (v : UInt8) : IsContinuation (v &&& 0x3f ||| 0x80) := by
  have h : ∀ v : BitVec 8, (v &&& 0x3f#8 ||| 0x80#8) &&& 0xc0#8 = 0x80#8 := by decide
  exact UInt8.toBitVec_inj.mp (h v.toBitVec)

theorem start_bits (v : UInt8) : ¬ IsContinuation (v &&& 0x1f ||| 0xc0) ∧
    ¬ IsContinuation (v &&& 0x0f ||| 0xe0) ∧ ¬ IsContinuation (v &&& 0x07 ||| 0xf0) := by
  have h : ∀ v : BitVec 8, (v &&& 0x1f#8 ||| 0xc0#8) &&& 0xc0#8 ≠ 0x80#8 ∧
      (v &&& 0x0f#8 ||| 0xe0#8) &&& 0xc0#8 ≠ 0x80#8 ∧
      (v &&& 0x07#8 ||| 0xf0#8) &&& 0xc0#8 ≠ 0x80#8 := by decide
  obtain ⟨htwo, hthree, hfour⟩ := h v.toBitVec
  exact ⟨fun habs => htwo (UInt8.toBitVec_inj.mpr habs),
    fun habs => hthree (UInt8.toBitVec_inj.mpr habs),
    fun habs => hfour (UInt8.toBitVec_inj.mpr habs)⟩

theorem ascii_bits {v : UInt8} (hv : v.toNat < 128) : ¬ IsContinuation v := by
  have h : ∀ v : BitVec 8, v.toNat < 128 → v &&& 0xc0#8 ≠ 0x80#8 := by decide
  exact fun habs => h v.toBitVec hv (UInt8.toBitVec_inj.mpr habs)

theorem utf8EncodeChar_bytes (c : Char) : ∃ b bs, String.utf8EncodeChar c = b :: bs ∧
    ¬ IsContinuation b ∧ ∀ x ∈ bs, IsContinuation x := by
  rcases c.utf8Size_eq with h | h | h | h
  · refine ⟨_, _, String.utf8EncodeChar_eq_singleton h, ascii_bits ?_, by simp⟩
    have hle := UInt32.le_iff_toNat_le.mp (Char.utf8Size_eq_one_iff.mp h)
    rw [UInt32.toNat_toUInt8]
    change c.val.toNat ≤ 127 at hle
    omega
  · refine ⟨_, _, String.utf8EncodeChar_eq_cons_cons h, (start_bits _).1, ?_⟩
    simp only [forall_mem_singleton]
    exact continuation_bits _
  · refine ⟨_, _, String.utf8EncodeChar_eq_cons_cons_cons h, (start_bits _).2.1, ?_⟩
    simp only [forall_mem_cons]
    exact ⟨continuation_bits _, continuation_bits _, by simp⟩
  · refine ⟨_, _, String.utf8EncodeChar_eq_cons_cons_cons_cons h, (start_bits _).2.2, ?_⟩
    simp only [forall_mem_cons]
    exact ⟨continuation_bits _, continuation_bits _, continuation_bits _, by simp⟩

theorem firstChar_append (c : Char) (rest : List UInt8) :
    firstChar (String.utf8EncodeChar c ++ rest) = some c := by
  rw [firstChar, toByteArray_append]
  exact ByteArray.utf8DecodeChar?_utf8EncodeChar_append

theorem firstChar_eq_some (h : firstChar bytes = some c) :
    ∃ rest, bytes = String.utf8EncodeChar c ++ rest := by
  obtain ⟨l, hl⟩ := ByteArray.exists_of_utf8DecodeChar?_eq_some h
  refine ⟨l.data.toList, ?_⟩
  have hdata := congrArg (fun b => b.data.toList) hl
  simpa using hdata

def oneByOneNext (bytes : List UInt8) : ℕ :=
  match firstChar bytes with
  | some c => c.utf8Size
  | none => min 1 bytes.length

theorem oneByOneNext_some (h : firstChar bytes = some c) : oneByOneNext bytes = c.utf8Size := by
  rw [oneByOneNext, h]

theorem oneByOneNext_none (h : firstChar bytes = none) :
    oneByOneNext bytes = min 1 bytes.length := by
  rw [oneByOneNext, h]

/-- It is one of the ways in which `MultiByteToWideChar` can cut its input. -/
def oneByOne : MultiByteToWideChar where
  next := oneByOneNext
  pos := by
    intro bytes hbytes
    have hlen := List.length_pos_iff.mpr hbytes
    cases h : firstChar bytes with
    | none =>
      rw [oneByOneNext_none h]
      omega
    | some c =>
      rw [oneByOneNext_some h]
      exact c.utf8Size_pos
  le := by
    intro bytes
    cases h : firstChar bytes with
    | none =>
      rw [oneByOneNext_none h]
      omega
    | some c =>
      obtain ⟨rest, rfl⟩ := firstChar_eq_some h
      rw [oneByOneNext_some h, List.length_append, String.length_utf8EncodeChar]
      omega
  take := by
    intro n bytes hn
    cases h : firstChar bytes with
    | none =>
      rw [oneByOneNext_none h] at hn ⊢
      have hnone : firstChar (bytes.take n) = none := by
        cases htake : firstChar (bytes.take n) with
        | none => rfl
        | some c =>
          obtain ⟨rest, hrest⟩ := firstChar_eq_some htake
          have hall : bytes = String.utf8EncodeChar c ++ (rest ++ bytes.drop n) := by
            rw [← List.append_assoc, ← hrest, List.take_append_drop]
          rw [hall, firstChar_append] at h
          cases h
      rw [oneByOneNext_none hnone, List.length_take]
      omega
    | some c =>
      obtain ⟨rest, rfl⟩ := firstChar_eq_some h
      rw [oneByOneNext_some h] at hn ⊢
      rw [← String.length_utf8EncodeChar] at hn
      obtain ⟨k, rfl⟩ := Nat.exists_eq_add_of_le hn
      rw [List.take_length_add_append, oneByOneNext_some (firstChar_append c _)]
  tail := by
    intro bytes x hx
    cases h : firstChar bytes with
    | none =>
      rw [oneByOneNext_none h] at hx
      cases bytes with
      | nil => simp at hx
      | cons b bs => simp at hx
    | some c =>
      obtain ⟨rest, rfl⟩ := firstChar_eq_some h
      rw [oneByOneNext_some h, ← String.length_utf8EncodeChar, List.take_left] at hx
      obtain ⟨b, bs, hbytes, -, htail⟩ := utf8EncodeChar_bytes c
      rw [hbytes] at hx
      exact htail x hx
  stray := by
    intro x bytes hx
    cases h : firstChar (x :: bytes) with
    | none => simp [oneByOneNext_none h]
    | some c =>
      obtain ⟨rest, hrest⟩ := firstChar_eq_some h
      obtain ⟨b, bs, hbytes, hstart, -⟩ := utf8EncodeChar_bytes c
      rw [hbytes, List.cons_append] at hrest
      obtain ⟨rfl, -⟩ := List.cons.inj hrest
      exact absurd hx hstart
  legal := by
    intro c rest
    exact oneByOneNext_some (firstChar_append c rest)

/-! ## What goes wrong -/

theorem segments_char (m : MultiByteToWideChar) (c : Char) (rest : List UInt8) :
    m.segments (String.utf8EncodeChar c ++ rest) =
      String.utf8EncodeChar c :: m.segments rest := by
  have hne : String.utf8EncodeChar c ++ rest ≠ [] := by
    simp [String.utf8EncodeChar_ne_nil]
  rw [Segmentation.segments_of_ne_nil hne, m.legal, ← String.length_utf8EncodeChar, take_left,
    drop_left]

theorem wideUnits_char (c : Char) : wideUnits (String.utf8EncodeChar c) = utf16Units c := by
  have hfirst := firstChar_append c []
  rw [append_nil] at hfirst
  rw [wideUnits, hfirst]
  exact if_pos (String.length_utf8EncodeChar c).symm

theorem text_letters (m : MultiByteToWideChar) (n : ℕ) :
    m.text (List.replicate n 0x61) = List.replicate n 0x61 := by
  induction n with
  | zero => simp [MultiByteToWideChar.text]
  | succ n ih =>
    have hbytes : replicate (n + 1) (0x61 : UInt8) =
        String.utf8EncodeChar 'a' ++ replicate n 0x61 := rfl
    have hunits : utf16Units 'a' = [0x61] := by decide
    rw [hbytes, MultiByteToWideChar.text, segments_char, flatMap_cons, wideUnits_char, hunits]
    change [0x61] ++ m.text (replicate n 0x61) = _
    rw [ih]
    rfl

theorem not_whole_of_cut (m : MultiByteToWideChar) {a b : List UInt8}
    (hcut : String.utf8EncodeChar c = a ++ b) (ha : a ≠ []) (hb : b ≠ []) : ¬ m.Whole [a, b] := by
  intro h
  have hlen := congrArg List.length hcut
  rw [String.length_utf8EncodeChar, length_append] at hlen
  have hnext := m.legal c []
  rw [append_nil, hcut] at hnext
  have hboundary := (Segmentation.whole_cons.mp h).1
  rw [flatten_singleton] at hboundary
  have hle := (hboundary.cases_pos (length_pos_iff.mpr ha)).1
  have hpos := length_pos_iff.mpr hb
  omega

/-- Text is delivered just when no buffer is empty, no buffer has more than 8192 code units, and no
buffer ends within a character or an illegal sequence. -/
theorem delivered_iff (m : MultiByteToWideChar) (calls : List (List (List UInt8))) :
    Delivered m calls ↔
      (∀ buf ∈ calls.flatten, buf ≠ [] ∧ (m.text buf).length ≤ utf16BufSize) ∧
        m.Whole calls.flatten := by
  constructor
  · rintro ⟨ts, hrun, htext⟩
    obtain ⟨-, hfit, rfl⟩ := ttyVtermWrites_ok_iff.mp hrun
    refine ⟨hfit, (flatMap_text_iff _).mp ?_⟩
    rw [List.flatMap_def]
    exact htext
  · rintro ⟨hfit, hwhole⟩
    refine ⟨_, ttyVtermWrites_ok_iff.mpr ⟨rfl, hfit, rfl⟩, ?_⟩
    rw [List.nil_append, ← List.flatMap_def, (flatMap_text_iff _).mpr hwhole]

/-- A euro sign in a buffer of its own. -/
theorem delivered_iff_euro : Delivered oneByOne [[[0xe2, 0x82, 0xac], [0x0a]]] ↔
    (∀ buf ∈ [[[0xe2, 0x82, 0xac], [0x0a]]].flatten,
        buf ≠ [] ∧ (oneByOne.text buf).length ≤ utf16BufSize) ∧
      oneByOne.Whole [[[0xe2, 0x82, 0xac], [0x0a]]].flatten :=
  delivered_iff oneByOne _

theorem ttyVtermWrites_overflow {buf : List UInt8} (hbuf : buf ≠ [])
    (hlen : utf16BufSize < (m.text buf).length) :
    ttyVtermWrites m r [[buf]] = .error .crash := by
  rw [ttyVtermWrites, uvTtyWriteVterm, MultiByteToWideChar.convert, if_neg hbuf]
  dsimp only
  rw [if_pos hlen]

/-- A buffer of 8193 letters is written outside `utf16_buf`, an empty buffer makes the call fail and
the buffers after it are not written, and a euro sign in two buffers is not shown. -/
theorem vterm_fails :
    ttyVtermWrites oneByOne ([], true) [[List.replicate 8193 0x61]] = .error .crash ∧
      ttyVtermWrites oneByOne ([], true) [[[], [0x62]]] = .ok ([], false) ∧
      ¬ Delivered oneByOne [[[0xe2], [0x82, 0xac]]] := by
  refine ⟨?_, rfl, ?_⟩
  · apply ttyVtermWrites_overflow
    · rw [ne_eq, List.replicate_eq_nil_iff]
      decide
    · rw [text_letters, List.length_replicate]
      decide
  · rintro ⟨ts, hrun, htext⟩
    obtain ⟨-, -, rfl⟩ := ttyVtermWrites_ok_iff.mp hrun
    have hwhole := (flatMap_text_iff (m := oneByOne) [[0xe2], [0x82, 0xac]]).mp
      ((List.flatMap_def ..).trans htext)
    have heuro : String.utf8EncodeChar '€' = [0xe2] ++ [0x82, 0xac] := by decide
    exact not_whole_of_cut oneByOne heuro (by simp) (by simp) hwhole

end LibuvWorks.Win
