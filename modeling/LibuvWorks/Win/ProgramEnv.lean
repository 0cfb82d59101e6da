import LibuvWorks.Lib.Merging
import Mathlib.Algebra.GroupWithZero.Nat
import Mathlib.Data.List.Lex

/-!
# The environment of a child process

`make_program_env` of `win/process.c` turns the environment that a program asks for into the block
that Windows wants, and `find_path` looks for the search path in it. A string is without its NUL.
-/
namespace LibuvWorks.Win

open List Option
open List (append_assoc flatMap_cons length_append length_singleton mem_cons_self zip_cons_cons)
open Merging

abbrev WString := List UInt16

def wide (cs : List Char) : WString := cs.map fun c => UInt16.ofNat c.toNat

/-- `env_var_t` -/
structure EnvVar where
  wide : WString
  wideEq : WString
  len : ℕ
  deriving DecidableEq

def eV (str : List Char) : EnvVar := ⟨wide str, wide str ++ [61], str.length + 1⟩

def requiredVars : List EnvVar := [
  eV ['H', 'O', 'M', 'E', 'D', 'R', 'I', 'V', 'E'],
  eV ['H', 'O', 'M', 'E', 'P', 'A', 'T', 'H'],
  eV ['L', 'O', 'G', 'O', 'N', 'S', 'E', 'R', 'V', 'E', 'R'],
  eV ['P', 'A', 'T', 'H'],
  eV ['S', 'Y', 'S', 'T', 'E', 'M', 'D', 'R', 'I', 'V', 'E'],
  eV ['S', 'Y', 'S', 'T', 'E', 'M', 'R', 'O', 'O', 'T'],
  eV ['T', 'E', 'M', 'P'],
  eV ['U', 'S', 'E', 'R', 'D', 'O', 'M', 'A', 'I', 'N'],
  eV ['U', 'S', 'E', 'R', 'N', 'A', 'M', 'E'],
  eV ['U', 'S', 'E', 'R', 'P', 'R', 'O', 'F', 'I', 'L', 'E'],
  eV ['W', 'I', 'N', 'D', 'I', 'R']]

/-- What the code calls: `LCMapStringW` with `LCMAP_UPPERCASE`, `MultiByteToWideChar` with
`CP_UTF8`, `GetEnvironmentVariableW` of a parent whose environment does not change, and `qsort`. -/
structure EnvSystem where
  upcase : WString → WString
  length_upcase : ∀ s : WString, (upcase s).length = s.length
  upcase_upper : ∀ s : WString, (∀ c ∈ s, 65 ≤ c ∧ c ≤ 90) → upcase s = s
  toWide : List UInt8 → Except ℕ WString
  toWide_nul : ∀ (s : List UInt8) (w : WString), toWide s = .ok w → 0 ∉ w
  toWide_eq : ∀ (s : List UInt8) (w : WString), toWide s = .ok w → 61 ∈ s → 61 ∈ w
  parentVar : WString → Option WString
  parentVar_nul : ∀ name w : WString, parentVar name = some w → 0 ∉ w
  qsort : (WString → WString → Ordering) → List WString → List WString
  qsort_perm : ∀ (cmp : WString → WString → Ordering) (xs : List WString), (qsort cmp xs).Perm xs
  qsort_sorted : ∀ (cmp : WString → WString → Ordering) (xs : List WString), Std.TransCmp cmp →
    (qsort cmp xs).Pairwise fun a b => cmp a b ≠ .gt

/-- Why there is no block. The last four are the ways in which the code itself could go wrong. -/
inductive EnvError where
  | system (code : ℕ)
  | outOfMemory
  | assertion
  | fatal
  | overrun
  | uninitialized

/-! ### `env_strncmp` -/

/-- The loop over the two upper-cased names with their NULs -/
def wcsLoop : WString → WString → Ordering
  | a :: as, b :: bs =>
    if a < b then .lt
    else if b < a then .gt
    else if a = 0 ∧ b = 0 then .eq
    else wcsLoop as bs
  | _, _ => .eq

namespace EnvSystem

variable (sys : EnvSystem)

/-- `na` is the length of the name with its `=`, or negative. -/
def envName (a : WString) (na : ℤ) : WString :=
  if na < 0 then a.takeWhile (· ≠ 61) else a.take (na - 1).toNat

def envStrncmp (a : WString) (na : ℤ) (b : WString) : Ordering :=
  wcsLoop (sys.upcase (envName a na) ++ [0]) (sys.upcase (b.takeWhile (· ≠ 61)) ++ [0])

def qsortWcscmp (a b : WString) : Ordering := sys.envStrncmp a (-1) b

/-! ### `make_program_env` -/

/-- The first pass. `n` and `count` are `env_len` and `env_block_count`. -/
def firstPass : List (List UInt8) → ℕ → ℕ → Except EnvError (ℕ × ℕ)
  | [], n, count => .ok (n, count)
  | env :: envs, n, count =>
    if 61 ∈ env then
      match sys.toWide env with
      | .error code => .error (.system code)
      | .ok w => firstPass envs (n + (w.length + 1)) (count + 1)
    else firstPass envs n count

/-- The second pass. `ptr` is how much of `dst_copy` is written; a string that does not fit is
`ERROR_INSUFFICIENT_BUFFER`. -/
def secondPass (n : ℕ) : List (List UInt8) → ℕ → List WString → Except EnvError (ℕ × List WString)
  | [], ptr, envCopy => .ok (ptr, envCopy)
  | env :: envs, ptr, envCopy =>
    if 61 ∈ env then
      match sys.toWide env with
      | .error code => .error (.system code)
      | .ok w =>
        if w.length + 1 ≤ n - ptr then secondPass n envs (ptr + (w.length + 1)) (envCopy ++ [w])
        else .error (.system 122)
    else secondPass n envs ptr envCopy

/-- `GetEnvironmentVariableW` without a buffer: the size with the NUL, and 0 when there is no such
variable. -/
def varSize (v : EnvVar) : ℕ := ((sys.parentVar v.wide).map fun w => w.length + 1).getD 0

/-- The third pass. The lengths that it does not store stay as they are in the array. -/
def thirdPass : List EnvVar → List WString → ℕ → List (Option ℕ) × ℕ
  | [], _, n => ([], n)
  | v :: vs, [], n =>
    let size := sys.varSize v
    let r := thirdPass vs [] (if size ≠ 0 then n + v.len + size else n)
    (some size :: r.1, r.2)
  | v :: vs, e :: es, n =>
    match sys.envStrncmp v.wideEq v.len e with
    | .lt =>
      let size := sys.varSize v
      let r := thirdPass vs (e :: es) (if size ≠ 0 then n + v.len + size else n)
      (some size :: r.1, r.2)
    | .eq =>
      let r := thirdPass vs es n
      (none :: r.1, r.2)
    | .gt => thirdPass (v :: vs) es n
termination_by vs es => vs.length + es.length

/-- `GetEnvironmentVariableW` into a buffer: what it returns, and what it writes. -/
def getVariable (v : EnvVar) (room : ℕ) : ℕ × WString :=
  match sys.parentVar v.wide with
  | none => (0, [])
  | some w => if w.length + 1 ≤ room then (w.length, w ++ [0]) else (w.length + 1, [])

/-- A required variable that is missing. `dst` has room for `n + 1` characters. -/
def putMissing (n : ℕ) (v : EnvVar) (valueLen : Option ℕ) (dst : WString) :
    Except EnvError WString :=
  match valueLen with
  | none => .error .uninitialized
  | some len =>
    if len = 0 then .ok dst
    else if n + 1 < dst.length + (v.wideEq.length + 1) then .error .overrun
    else
      let dst := dst ++ v.wideEq
      let r := sys.getVariable v (n - dst.length)
      if r.1 ≠ len - 1 then .error .fatal else .ok (dst ++ r.2)

/-- `wmemcpy` of a variable with its NUL -/
def putCopy (n : ℕ) (e : WString) (dst : WString) : Except EnvError WString :=
  if n + 1 < dst.length + (e.length + 1) then .error .overrun else .ok (dst ++ (e ++ [0]))

/-- The final pass -/
def finalPass (n : ℕ) :
    List (EnvVar × Option ℕ) → List WString → WString → Except EnvError WString
  | [], [], dst => .ok dst
  | [], e :: es, dst => (putCopy n e dst).bind (finalPass n [] es)
  | v :: vs, [], dst => (sys.putMissing n v.1 v.2 dst).bind (finalPass n vs [])
  | v :: vs, e :: es, dst =>
    match sys.envStrncmp v.1.wideEq v.1.len e with
    | .lt => (sys.putMissing n v.1 v.2 dst).bind (finalPass n vs (e :: es))
    | .eq => (putCopy n e dst).bind (finalPass n vs es)
    | .gt => (putCopy n e dst).bind (finalPass n (v :: vs) es)
termination_by vs es => vs.length + es.length

/-- The passes after the first one; `malloc` says whether the second allocation succeeds. -/
def fillEnv (malloc : Bool) (n count : ℕ) (envBlock : List (List UInt8)) :
    Except EnvError WString :=
  (sys.secondPass n envBlock 0 []).bind fun (ptr, envCopy) =>
    if ptr ≠ n then .error .assertion
    else
      let envCopy := sys.qsort sys.qsortWcscmp (envCopy.take (count - 1))
      let (valueLens, n) := sys.thirdPass requiredVars envCopy n
      if malloc = false then .error .outOfMemory
      else
        (sys.finalPass n (requiredVars.zip valueLens) envCopy []).bind fun dst =>
          if dst.length ≠ n then .error .assertion else .ok (dst ++ [0])

def makeProgramEnv (mallocCopy malloc : Bool) (envBlock : List (List UInt8)) :
    Except EnvError WString :=
  (sys.firstPass envBlock 0 1).bind fun (n, count) =>
    if mallocCopy = false then .error .outOfMemory else sys.fillEnv malloc n count envBlock

/-! ### The order of the names -/

def wcsKey (s : WString) : List ℕ := (s.map UInt16.toNat).takeWhile (· ≠ 0)

theorem wcsKey_nil : wcsKey [] = [] := rfl

theorem wcsKey_zero (s : WString) : wcsKey (0 :: s) = [] := rfl

theorem wcsKey_cons {c : UInt16} (hc : c ≠ 0) (s : WString) :
    wcsKey (c :: s) = c.toNat :: wcsKey s := by
  have hnat : c.toNat ≠ 0 := fun habs => hc (UInt16.toNat_inj.mp habs)
  simp [wcsKey, hnat]

theorem keyCmp_cons {c d : ℕ} {as bs : List ℕ} : keyCmp (c :: as) (d :: bs) =
    if c < d then .lt else if d < c then .gt else keyCmp as bs := by
  unfold keyCmp
  obtain hlt | rfl | hlt := Nat.lt_trichotomy c d
  · rw [if_pos hlt, cmp_eq_lt_iff]
    exact cons_lt_cons_iff.mpr (.inl hlt)
  · have hiff : ∀ xs ys : List ℕ, c :: xs < c :: ys ↔ xs < ys := fun xs ys => by
      rw [cons_lt_cons_iff]
      simp
    simp only [cmp, cmpUsing, hiff, Nat.lt_irrefl, if_false]
    split_ifs <;> rfl
  · rw [if_neg (Nat.lt_asymm hlt), if_pos hlt, cmp_eq_gt_iff]
    exact cons_lt_cons_iff.mpr (.inl hlt)

theorem wcsLoop_eq (a b : WString) :
    wcsLoop (a ++ [0]) (b ++ [0]) = keyCmp (wcsKey a) (wcsKey b) := by
  induction a generalizing b with
  | nil =>
    cases b with
    | nil => rfl
    | cons d b =>
      by_cases hd : d = 0
      · subst hd
        rfl
      · have hpos : 0 < d := UInt16.pos_iff_ne_zero.mpr hd
        rw [wcsKey_nil, wcsKey_cons hd]
        exact if_pos hpos
  | cons c a ih =>
    cases b with
    | nil =>
      by_cases hc : c = 0
      · subst hc
        rfl
      · have hpos : 0 < c := UInt16.pos_iff_ne_zero.mpr hc
        rw [wcsKey_nil, wcsKey_cons hc]
        exact (if_neg (UInt16.lt_asymm hpos)).trans (if_pos hpos)
    | cons d b =>
      rw [cons_append, cons_append, wcsLoop]
      by_cases hc : c = 0
      · by_cases hd : d = 0
        · subst hc hd
          rfl
        · have hpos : 0 < d := UInt16.pos_iff_ne_zero.mpr hd
          subst hc
          rw [wcsKey_zero, wcsKey_cons hd, if_pos hpos]
          rfl
      · by_cases hd : d = 0
        · have hpos : 0 < c := UInt16.pos_iff_ne_zero.mpr hc
          subst hd
          rw [wcsKey_zero, wcsKey_cons hc, if_neg (UInt16.lt_asymm hpos), if_pos hpos]
          rfl
        · rw [wcsKey_cons hc, wcsKey_cons hd, keyCmp_cons,
              if_neg (show ¬(c = 0 ∧ d = 0) by tauto), ih]
          simp only [UInt16.lt_iff_toNat_lt]

def entryKey (e : WString) : List ℕ := wcsKey (sys.upcase (e.takeWhile (· ≠ 61)))

def varKey (v : EnvVar) : List ℕ := wcsKey (sys.upcase (envName v.wideEq v.len))

variable {e : WString}

theorem envStrncmp_eq {v : EnvVar} :
    sys.envStrncmp v.wideEq v.len e = keyCmp (sys.varKey v) (sys.entryKey e) := wcsLoop_eq ..

theorem qsortWcscmp_eq {a b : WString} :
    sys.qsortWcscmp a b = keyCmp (sys.entryKey a) (sys.entryKey b) := wcsLoop_eq ..

instance : Std.TransCmp sys.qsortWcscmp where
  eq_swap := by
    intro a b
    rw [qsortWcscmp_eq, qsortWcscmp_eq]
    exact keyCmp_swap.symm
  isLE_trans := by
    intro a b c hab hbc
    have hle : ∀ {x y : WString},
        (sys.qsortWcscmp x y).isLE = true ↔ sys.entryKey x ≤ sys.entryKey y := by
      intro x y
      rw [qsortWcscmp_eq, Ordering.isLE_iff_ne_gt, ← not_lt]
      exact not_congr keyCmp_eq_gt
    exact hle.mpr ((hle.mp hab).trans (hle.mp hbc))

/-! ### The two passes over the strings -/

/-- The entries that contain `=`, in UTF-16 -/
inductive Converts (sys : EnvSystem) : List (List UInt8) → List WString → Prop
  | nil : Converts sys [] []
  | skip {s : List UInt8} {envs : List (List UInt8)} {ws : List WString} :
    61 ∉ s → Converts sys envs ws → Converts sys (s :: envs) ws
  | entry {s : List UInt8} {w : WString} {envs : List (List UInt8)} {ws : List WString} :
    61 ∈ s → sys.toWide s = .ok w → Converts sys envs ws → Converts sys (s :: envs) (w :: ws)

def textLen (entries : List WString) : ℕ := (entries.map fun w => w.length + 1).sum

@[simp] theorem textLen_nil : textLen [] = 0 := rfl

@[simp] theorem textLen_cons {w : WString} {ws : List WString} :
    textLen (w :: ws) = w.length + 1 + textLen ws := List.sum_cons

variable {sys} {envBlock : List (List UInt8)} {entries es : List WString} {vs : List EnvVar}
  {v : EnvVar} {n m count ptr : ℕ} {dst : WString}

theorem firstPass_eq (sys : EnvSystem) (envBlock : List (List UInt8)) (n count : ℕ) :
    (∃ code, sys.firstPass envBlock n count = .error (.system code)) ∨
    ∃ entries, sys.Converts envBlock entries ∧
      sys.firstPass envBlock n count = .ok (n + textLen entries, count + entries.length) := by
  induction envBlock generalizing n count with
  | nil => exact .inr ⟨[], .nil, rfl⟩
  | cons env envs ih =>
    rw [firstPass]
    by_cases henv : 61 ∈ env
    · rw [if_pos henv]
      cases hw : sys.toWide env with
      | error code => exact .inl ⟨code, rfl⟩
      | ok w =>
        dsimp only
        obtain ⟨code, herror⟩ | ⟨entries, hentries, hok⟩ :=
          ih (n + (w.length + 1)) (count + 1)
        · exact .inl ⟨code, herror⟩
        · refine .inr ⟨w :: entries, .entry henv hw hentries, ?_⟩
          rw [hok, textLen_cons, length_cons]
          congr 2 <;> omega
    · rw [if_neg henv]
      exact (ih n count).imp id fun ⟨entries, hentries, hok⟩ =>
        ⟨entries, .skip henv hentries, hok⟩

theorem secondPass_eq {envCopy : List WString} (h : sys.Converts envBlock entries)
    (hroom : ptr + textLen entries ≤ n) : sys.secondPass n envBlock ptr envCopy =
      .ok (ptr + textLen entries, envCopy ++ entries) := by
  induction h generalizing ptr envCopy with
  | nil => rw [secondPass, textLen_nil, append_nil, Nat.add_zero]
  | skip henv _ ih =>
    rw [secondPass, if_neg henv]
    exact ih hroom
  | entry henv hw _ ih =>
    rw [textLen_cons] at hroom ⊢
    rw [secondPass, if_pos henv, hw]
    dsimp only
    rw [if_pos (by omega), ih (by omega), append_assoc, singleton_append, Nat.add_assoc]

theorem Converts.unique {ws : List WString} (h : sys.Converts envBlock entries)
    (hws : sys.Converts envBlock ws) : entries = ws := by
  induction h generalizing ws with
  | nil =>
    cases hws
    rfl
  | skip henv _ ih =>
    cases hws with
    | skip _ hws => exact ih hws
    | entry habs _ _ => exact absurd habs henv
  | entry henv hw _ ih =>
    cases hws with
    | skip habs _ => exact absurd henv habs
    | entry _ hw' hws =>
      cases hw.symm.trans hw'
      rw [ih hws]

theorem Converts.text (h : sys.Converts envBlock entries) (he : e ∈ entries) :
    61 ∈ e ∧ 0 ∉ e := by
  induction h with
  | nil => cases he
  | skip _ _ ih => exact ih he
  | entry henv hw _ ih =>
    obtain rfl | he := mem_cons.mp he
    · exact ⟨sys.toWide_eq _ _ hw henv, sys.toWide_nul _ _ hw⟩
    · exact ih he

/-! ### The two merging passes -/

def blockText (sys : EnvSystem) : EnvVar ⊕ WString → Option WString
  | .inl v => (sys.parentVar v.wide).map fun w => v.wideEq ++ w
  | .inr e => some e

def written (sys : EnvSystem) (x : EnvVar ⊕ WString) : WString :=
  ((sys.blockText x).map fun w => w ++ [0]).getD []

def merged (sys : EnvSystem) (vs : List EnvVar) (es : List WString) : List (EnvVar ⊕ WString) :=
  insertMissing sys.varKey sys.entryKey vs es

theorem merged_of_lt (h : sys.envStrncmp v.wideEq v.len e = .lt) :
    sys.merged (v :: vs) (e :: es) = .inl v :: sys.merged vs (e :: es) :=
  insertMissing_of_lt (keyCmp_eq_lt.mp (sys.envStrncmp_eq.symm.trans h))

theorem merged_of_eq (h : sys.envStrncmp v.wideEq v.len e = .eq) :
    sys.merged (v :: vs) (e :: es) = .inr e :: sys.merged vs es :=
  insertMissing_of_eq (keyCmp_eq_eq.mp (sys.envStrncmp_eq.symm.trans h))

theorem merged_of_gt (h : sys.envStrncmp v.wideEq v.len e = .gt) :
    sys.merged (v :: vs) (e :: es) = .inr e :: sys.merged (v :: vs) es :=
  insertMissing_of_gt (keyCmp_eq_gt.mp (sys.envStrncmp_eq.symm.trans h))

theorem merged_nil_cons : sys.merged [] (e :: es) = .inr e :: sys.merged [] es := by
  rw [merged, insertMissing_nil, merged, insertMissing_nil, map_cons]

theorem merged_cons_nil : sys.merged (v :: vs) [] = .inl v :: sys.merged vs [] :=
  insertMissing_cons_nil

@[simp] theorem written_inr : sys.written (.inr e) = e ++ [0] := rfl

theorem add_varSize (hv : v.len = v.wideEq.length) :
    (if sys.varSize v ≠ 0 then n + v.len + sys.varSize v else n) =
      n + (sys.written (.inl v)).length := by
  unfold varSize written blockText
  cases hw : sys.parentVar v.wide with
  | none => simp [hw]
  | some w => simp [hw, hv, Nat.add_assoc]

theorem thirdPass_fst_length : (sys.thirdPass vs es n).1.length = vs.length := by
  fun_induction thirdPass sys vs es n with
  | case1 es n => rfl
  | case2 v vs n size r ih | case3 v vs e es n hcmp size r ih | case4 v vs e es n hcmp r ih =>
    exact congrArg Nat.succ ih
  | case5 v vs e es n hcmp ih => exact ih

theorem thirdPass_snd (sys : EnvSystem) (es : List WString) (n : ℕ)
    (hvs : ∀ v ∈ vs, v.len = v.wideEq.length) :
    (sys.thirdPass vs es n).2 + textLen es =
      n + ((sys.merged vs es).flatMap sys.written).length := by
  fun_induction thirdPass sys vs es n with
  | case1 es n =>
    induction es with
    | nil => simp [merged, insertMissing_nil]
    | cons e es ih =>
      rw [merged_nil_cons, flatMap_cons, length_append, textLen_cons, written_inr,
        length_append, length_singleton]
      omega
  | case2 v vs n size r ih =>
    have hrest := ih fun w hw => hvs w (.tail _ hw)
    rw [merged_cons_nil, flatMap_cons, length_append, ← Nat.add_assoc,
      ← add_varSize (hvs v mem_cons_self)]
    exact hrest
  | case3 v vs e es n hcmp size r ih =>
    have hrest := ih fun w hw => hvs w (.tail _ hw)
    rw [merged_of_lt hcmp, flatMap_cons, length_append, ← Nat.add_assoc,
      ← add_varSize (hvs v mem_cons_self)]
    exact hrest
  | case4 v vs e es n hcmp r ih =>
    have hrest : r.2 + textLen es = _ := ih fun w hw => hvs w (.tail _ hw)
    rw [merged_of_eq hcmp, flatMap_cons, length_append, textLen_cons, written_inr,
      length_append, length_singleton]
    omega
  | case5 v vs e es n hcmp ih =>
    have hrest := ih hvs
    rw [merged_of_gt hcmp, flatMap_cons, length_append, textLen_cons, written_inr,
      length_append, length_singleton]
    omega

theorem putMissing_eq (hv : v.len = v.wideEq.length)
    (hroom : dst.length + (sys.written (.inl v)).length ≤ n) :
    sys.putMissing n v (some (sys.varSize v)) dst = .ok (dst ++ sys.written (.inl v)) := by
  unfold putMissing varSize written blockText getVariable
  unfold written blockText at hroom
  cases hw : sys.parentVar v.wide with
  | none => simp [hw]
  | some w =>
    simp only [hw, map_some, getD_some, length_append,
      length_singleton] at hroom
    have hfit : w.length + 1 ≤ n - (dst ++ v.wideEq).length := by
      rw [length_append]
      omega
    simp only [map_some, getD_some, Nat.add_one_ne_zero, if_false]
    rw [if_neg (by omega), if_pos hfit]
    simp [hw]

theorem putCopy_eq (sys : EnvSystem) (hroom : dst.length + (e.length + 1) ≤ n) :
    putCopy n e dst = .ok (dst ++ sys.written (.inr e)) := if_neg (by omega)

theorem finalPass_eq (sys : EnvSystem) (es : List WString) (m n : ℕ)
    (hvs : ∀ v ∈ vs, v.len = v.wideEq.length)
    (hroom : dst.length + ((sys.merged vs es).flatMap sys.written).length ≤ n) :
    sys.finalPass n (vs.zip (sys.thirdPass vs es m).1) es dst =
      .ok (dst ++ (sys.merged vs es).flatMap sys.written) := by
  fun_induction thirdPass sys vs es m generalizing dst with
  | case1 es m =>
    rw [zip_nil_left]
    induction es generalizing dst with
    | nil => simp [finalPass, merged, insertMissing_nil]
    | cons e es ih =>
      rw [merged_nil_cons, flatMap_cons] at hroom ⊢
      rw [length_append, written_inr, length_append, length_singleton] at hroom
      rw [finalPass, putCopy_eq sys (by omega), Except.bind, ih, append_assoc]
      simpa [Nat.add_assoc] using hroom
  | case2 v vs m size r =>
    rename_i ih
    rw [merged_cons_nil, flatMap_cons] at hroom ⊢
    rw [length_append] at hroom
    rw [zip_cons_cons, finalPass, putMissing_eq (hvs v mem_cons_self) (by omega),
      ← append_assoc]
    apply ih fun w hw => hvs w (.tail _ hw)
    rw [length_append]
    omega
  | case3 v vs e es m hcmp size r =>
    rename_i ih
    rw [merged_of_lt hcmp, flatMap_cons] at hroom ⊢
    rw [length_append] at hroom
    rw [zip_cons_cons, finalPass, hcmp]
    dsimp only
    rw [putMissing_eq (hvs v mem_cons_self) (by omega), ← append_assoc]
    apply ih fun w hw => hvs w (.tail _ hw)
    rw [length_append]
    omega
  | case4 v vs e es m hcmp r =>
    rename_i ih
    rw [merged_of_eq hcmp, flatMap_cons] at hroom ⊢
    rw [length_append, written_inr, length_append, length_singleton] at hroom
    rw [zip_cons_cons, finalPass, hcmp]
    dsimp only
    rw [putCopy_eq sys (by omega), ← append_assoc]
    apply ih fun w hw => hvs w (.tail _ hw)
    simpa [Nat.add_assoc] using hroom
  | case5 v vs e es m hcmp ih =>
    rw [merged_of_gt hcmp, flatMap_cons] at hroom ⊢
    rw [length_append, written_inr, length_append, length_singleton] at hroom
    obtain ⟨x, l, hl⟩ : ∃ x l, (sys.thirdPass (v :: vs) es m).1 = x :: l := by
      apply exists_cons_of_length_pos
      rw [thirdPass_fst_length]
      exact Nat.succ_pos _
    rw [hl, zip_cons_cons] at ih ⊢
    rw [finalPass, hcmp]
    dsimp only
    rw [putCopy_eq sys (by omega), ← append_assoc]
    apply ih hvs
    simpa [Nat.add_assoc] using hroom

/-! ### The required variables -/

theorem requiredVars_len : ∀ v ∈ requiredVars, v.len = v.wideEq.length := by decide

theorem requiredVars_upper : ∀ v ∈ requiredVars, envName v.wideEq v.len = v.wide ∧
    v.wideEq = v.wide ++ [61] ∧ ∀ c ∈ v.wide, 65 ≤ c ∧ c ≤ 90 := by
  have hall : ∀ v ∈ requiredVars, envName v.wideEq v.len = v.wide ∧ v.wideEq = v.wide ++ [61] ∧
      (v.wide.all fun c => decide (65 ≤ c) && decide (c ≤ 90)) = true := by decide
  intro v hv
  obtain ⟨hname, heq, hupper⟩ := hall v hv
  exact ⟨hname, heq, fun c hc => by simpa using all_eq_true.mp hupper c hc⟩

theorem varKey_of_mem (hv : v ∈ requiredVars) : sys.varKey v = wcsKey v.wide := by
  obtain ⟨hname, -, hupper⟩ := requiredVars_upper v hv
  rw [varKey, hname, sys.upcase_upper _ hupper]

theorem requiredVars_sorted (sys : EnvSystem) :
    requiredVars.Pairwise fun a b => sys.varKey a < sys.varKey b := by
  have hkeys : requiredVars.Pairwise fun a b => wcsKey a.wide < wcsKey b.wide := by decide
  apply List.Pairwise.imp_of_mem _ hkeys
  intro a b ha hb hlt
  rwa [varKey_of_mem ha, varKey_of_mem hb]

theorem entryKey_append (hv : v ∈ requiredVars) {w : WString} :
    sys.entryKey (v.wideEq ++ w) = sys.varKey v := by
  obtain ⟨hname, heq, hupper⟩ := requiredVars_upper v hv
  have htake : (v.wideEq ++ w).takeWhile (fun c => decide (c ≠ 61)) = v.wide := by
    have hne : ∀ c ∈ v.wide, decide (c ≠ 61) = true := by
      intro c hc
      have hle := (hupper c hc).1
      rw [UInt16.le_iff_toNat_le] at hle
      refine decide_eq_true fun habs => ?_
      subst habs
      exact absurd hle (by decide)
    rw [heq, append_assoc, takeWhile_append_of_pos hne]
    simp
  rw [entryKey, htake, varKey, hname]

/-! ### The block -/

/-- The required variables that no entry names and the parent has, with their values -/
def defaults (sys : EnvSystem) (entries : List WString) : List WString :=
  (missing sys.varKey sys.entryKey requiredVars entries).filterMap fun v =>
    (sys.parentVar v.wide).map fun w => v.wideEq ++ w

/-- The entries and the defaults, each of them once and with a NUL, in the order of their names,
and a last NUL. -/
def IsBlock (sys : EnvSystem) (entries : List WString) (dst : WString) : Prop :=
  ∃ vars : List WString, dst = vars.flatMap (fun w => w ++ [0]) ++ [0] ∧
    vars.Perm (entries ++ sys.defaults entries) ∧
    vars.Pairwise fun a b => sys.entryKey a ≤ sys.entryKey b

def blockOf (sys : EnvSystem) (entries : List WString) : WString :=
  (sys.merged requiredVars (sys.qsort sys.qsortWcscmp entries)).flatMap sys.written ++ [0]

theorem qsort_entryKey : (sys.qsort sys.qsortWcscmp entries).Pairwise
    fun a b => sys.entryKey a ≤ sys.entryKey b := by
  apply (sys.qsort_sorted sys.qsortWcscmp entries inferInstance).imp
  intro a b hle
  rw [qsortWcscmp_eq, Ne, keyCmp_eq_gt] at hle
  exact not_lt.mp hle

theorem flatMap_written {xs : List (EnvVar ⊕ WString)} :
    xs.flatMap sys.written = (xs.filterMap sys.blockText).flatMap fun w => w ++ [0] := by
  induction xs with
  | nil => rfl
  | cons x xs ih =>
    rw [flatMap_cons, ih, written, filterMap_cons]
    cases sys.blockText x <;> rfl

theorem blockOf_isBlock : sys.IsBlock entries (sys.blockOf entries) := by
  obtain ⟨es, hes⟩ : ∃ es, es = sys.qsort sys.qsortWcscmp entries := ⟨_, rfl⟩
  have hperm : es.Perm entries := hes ▸ sys.qsort_perm ..
  have hsorted : es.Pairwise fun a b => sys.entryKey a ≤ sys.entryKey b := hes ▸ qsort_entryKey
  refine ⟨(sys.merged requiredVars es).filterMap sys.blockText, ?_, ?_, ?_⟩
  · rw [blockOf, flatMap_written, hes]
  · have hmerged := (insertMissing_perm sys.requiredVars_sorted hsorted).filterMap sys.blockText
    rw [filterMap_append, filterMap_map, filterMap_map,
        missing_perm hperm] at hmerged
    refine hmerged.trans (List.Perm.append ?_ (.refl _))
    exact (filterMap_some (l := es)).symm ▸ hperm
  · apply pairwise_filterMap.mpr
    apply (insertMissing_sorted sys.requiredVars_sorted hsorted).imp_of_mem
    have hkey : ∀ x ∈ sys.merged requiredVars es, ∀ w ∈ sys.blockText x,
        sys.entryKey w = Sum.elim sys.varKey sys.entryKey x := by
      intro x hx w hw
      obtain ⟨v, hv, rfl⟩ | ⟨e, -, rfl⟩ := mem_insertMissing hx
      · obtain ⟨value, -, rfl⟩ := map_eq_some_iff.mp hw
        exact entryKey_append hv
      · cases hw
        rfl
    intro x y hx hy hle a ha b hb
    rw [hkey x hx a ha, hkey y hy b hb]
    exact hle

theorem fillEnv_eq {malloc : Bool} (h : sys.Converts envBlock entries) :
    sys.fillEnv malloc (textLen entries) (1 + entries.length) envBlock =
      if malloc = false then .error .outOfMemory else .ok (sys.blockOf entries) := by
  obtain ⟨es, hes⟩ : ∃ es, es = sys.qsort sys.qsortWcscmp entries := ⟨_, rfl⟩
  have hlen : textLen es = textLen entries := by
    rw [hes]
    exact List.Perm.sum_nat ((sys.qsort_perm _ entries).map _)
  have hcount := thirdPass_snd sys es (textLen entries) requiredVars_len
  have hn : (sys.thirdPass requiredVars es (textLen entries)).2 =
      ((sys.merged requiredVars es).flatMap sys.written).length := by omega
  have hroom : ([] : WString).length + ((sys.merged requiredVars es).flatMap sys.written).length ≤
      (sys.thirdPass requiredVars es (textLen entries)).2 := by simp [hn]
  have hfinal := finalPass_eq sys es (textLen entries) _ requiredVars_len hroom
  have hcopy : (entries.take (1 + entries.length - 1)) = entries := by
    rw [Nat.add_sub_cancel_left, take_length]
  rw [fillEnv, secondPass_eq h (by omega), Except.bind]
  dsimp only
  rw [Nat.zero_add, if_neg (by simp), nil_append, hcopy, ← hes]
  split
  · rfl
  · rw [hfinal, Except.bind, nil_append, if_neg (by simp [hn]), blockOf, hes]

def Correct (sys : EnvSystem) (envBlock : List (List UInt8)) : Except EnvError WString → Prop
  | .ok dst => ∃ entries, sys.Converts envBlock entries ∧ sys.IsBlock entries dst
  | .error err => err = .outOfMemory ∨ ∃ code, err = .system code

theorem makeProgramEnv_cases (sys : EnvSystem) (mallocCopy malloc : Bool)
    (envBlock : List (List UInt8)) :
    (sys.makeProgramEnv mallocCopy malloc envBlock = .error .outOfMemory ∨
      ∃ code, sys.makeProgramEnv mallocCopy malloc envBlock = .error (.system code)) ∨
    ∃ entries, sys.Converts envBlock entries ∧
      sys.makeProgramEnv mallocCopy malloc envBlock = .ok (sys.blockOf entries) := by
  unfold makeProgramEnv
  obtain ⟨code, herror⟩ | ⟨entries, hentries, hok⟩ :=
    firstPass_eq sys envBlock 0 1
  · rw [herror]
    exact .inl (.inr ⟨code, rfl⟩)
  · rw [hok, Except.bind]
    dsimp only
    split
    · exact .inl (.inl rfl)
    · rw [Nat.zero_add, fillEnv_eq hentries]
      split
      · exact .inl (.inl rfl)
      · exact .inr ⟨entries, hentries, rfl⟩

theorem makeProgramEnv_correct (sys : EnvSystem) (mallocCopy malloc : Bool)
    (envBlock : List (List UInt8)) :
    sys.Correct envBlock (sys.makeProgramEnv mallocCopy malloc envBlock) := by
  obtain (herror | ⟨code, herror⟩) | ⟨entries, hentries, hok⟩ :=
    sys.makeProgramEnv_cases mallocCopy malloc envBlock
  · rw [herror]
    exact .inl rfl
  · rw [herror]
    exact .inr ⟨code, rfl⟩
  · rw [hok]
    exact ⟨entries, hentries, blockOf_isBlock⟩

end EnvSystem

end LibuvWorks.Win
