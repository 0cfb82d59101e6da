import LibuvWorks.Win.TtyParser
import Mathlib.Data.List.Induction

/-!
# Control sequences of the console

The arguments that a control sequence is executed with are those that are written in it.
-/
namespace LibuvWorks.Win

open Transducer List

/-! ### What is written -/

abbrev IsDigit (cp : UInt32) : Prop := 0x30 ≤ cp ∧ cp ≤ 0x39

def digitValue (cp : UInt32) : ℕ := cp.toNat - 48

abbrev IsCommand (cp : UInt32) : Prop := 0x40 ≤ cp ∧ cp ≤ 0x7e

/-- The decimal arguments in the part of a control sequence before its command byte, and whether
the last of them can go on. One that is omitted before a semicolon is zero; question marks before
the arguments are passed over. -/
inductive Written : List UInt32 → List ℕ → Bool → Prop
  | start : Written [] [] false
  | mark {body : List UInt32} : Written body [] false → Written (body ++ [0x3f]) [] false
  | first {body : List UInt32} {args : List ℕ} {d : UInt32} : Written body args false → IsDigit d →
    Written (body ++ [d]) (args ++ [digitValue d]) true
  | more {body : List UInt32} {args : List ℕ} {v : ℕ} {d : UInt32} :
    Written body (args ++ [v]) true → IsDigit d →
      Written (body ++ [d]) (args ++ [10 * v + digitValue d]) true
  | close {body : List UInt32} {args : List ℕ} :
    Written body args true → Written (body ++ [0x3b]) args false
  | omitted {body : List UInt32} {args : List ℕ} :
    Written body args false → Written (body ++ [0x3b]) (args ++ [0]) false

def Storable (args : List ℕ) : Prop := args.length ≤ 4 ∧ ∀ v ∈ args, v ≤ 0xffff

/-- Nothing is written that could be executed: there is another character, there are too many
arguments, or one is too large. -/
def Unwritten (body : List UInt32) : Prop := ∀ args b, Written body args b → ¬Storable args

variable {body : List UInt32} {args args' : List ℕ} {b b' : Bool} {cp : UInt32}

inductive WrittenLast (body : List UInt32) (cp : UInt32) : List ℕ → Bool → Prop
  | mark : cp = 0x3f → Written body [] false → WrittenLast body cp [] false
  | first {args : List ℕ} : IsDigit cp → Written body args false →
    WrittenLast body cp (args ++ [digitValue cp]) true
  | more {args : List ℕ} {v : ℕ} : IsDigit cp → Written body (args ++ [v]) true →
    WrittenLast body cp (args ++ [10 * v + digitValue cp]) true
  | close {args : List ℕ} : cp = 0x3b → Written body args true → WrittenLast body cp args false
  | omitted {args : List ℕ} : cp = 0x3b → Written body args false →
    WrittenLast body cp (args ++ [0]) false

theorem writtenLast (h : Written (body ++ [cp]) args b) : WrittenLast body cp args b := by
  generalize hbody : body ++ [cp] = l at h
  cases h with
  | start => exact absurd hbody (by simp)
  | mark h =>
    obtain ⟨rfl, hlast⟩ := append_inj' hbody rfl
    exact .mark (List.cons.inj hlast).1 h
  | first h hd =>
    obtain ⟨rfl, hlast⟩ := append_inj' hbody rfl
    obtain ⟨rfl, -⟩ := List.cons.inj hlast
    exact .first hd h
  | more h hd =>
    obtain ⟨rfl, hlast⟩ := append_inj' hbody rfl
    obtain ⟨rfl, -⟩ := List.cons.inj hlast
    exact .more hd h
  | close h =>
    obtain ⟨rfl, hlast⟩ := append_inj' hbody rfl
    exact .close (List.cons.inj hlast).1 h
  | omitted h =>
    obtain ⟨rfl, hlast⟩ := append_inj' hbody rfl
    exact .omitted (List.cons.inj hlast).1 h

theorem written_nil (h : Written [] args b) : args = [] ∧ b = false := by
  generalize hbody : ([] : List UInt32) = l at h
  cases h with
  | start => exact ⟨rfl, rfl⟩
  | mark | first | more | close | omitted => exact absurd hbody (by simp)

theorem Written.unique (h : Written body args b) (h' : Written body args' b') :
    args = args' ∧ b = b' := by
  induction body using reverseRecOn generalizing args args' b b' with
  | nil =>
    obtain ⟨rfl, rfl⟩ := written_nil h
    obtain ⟨rfl, rfl⟩ := written_nil h'
    exact ⟨rfl, rfl⟩
  | append_singleton body cp ih =>
    have hsemi : ¬IsDigit 0x3b := by decide
    have hmark : ¬IsDigit 0x3f := by decide
    cases writtenLast h with
    | mark hcp hbody =>
      subst hcp
      cases writtenLast h' with
      | mark => exact ⟨rfl, rfl⟩
      | first hd | more hd => exact absurd hd hmark
      | close habs | omitted habs => exact absurd habs (by decide)
    | first hd hbody =>
      cases writtenLast h' with
      | mark hcp => exact absurd (hcp ▸ hd) hmark
      | first _ hbody' =>
        obtain ⟨rfl, -⟩ := ih hbody hbody'
        exact ⟨rfl, rfl⟩
      | more _ hbody' => exact absurd (ih hbody hbody').2 Bool.false_ne_true
      | close hcp | omitted hcp => exact absurd (hcp ▸ hd) hsemi
    | more hd hbody =>
      cases writtenLast h' with
      | mark hcp => exact absurd (hcp ▸ hd) hmark
      | first _ hbody' => exact absurd (ih hbody' hbody).2 Bool.false_ne_true
      | more _ hbody' =>
        obtain ⟨hargs, -⟩ := ih hbody hbody'
        obtain ⟨rfl, hlast⟩ := append_inj' hargs rfl
        obtain ⟨rfl, -⟩ := List.cons.inj hlast
        exact ⟨rfl, rfl⟩
      | close hcp | omitted hcp => exact absurd (hcp ▸ hd) hsemi
    | close hcp hbody =>
      subst hcp
      cases writtenLast h' with
      | mark habs => exact absurd habs (by decide)
      | first hd | more hd => exact absurd hd hsemi
      | close _ hbody' => exact ⟨(ih hbody hbody').1, rfl⟩
      | omitted _ hbody' => exact absurd (ih hbody' hbody).2 Bool.false_ne_true
    | omitted hcp hbody =>
      subst hcp
      cases writtenLast h' with
      | mark habs => exact absurd habs (by decide)
      | first hd | more hd => exact absurd hd hsemi
      | close _ hbody' => exact absurd (ih hbody hbody').2 Bool.false_ne_true
      | omitted _ hbody' =>
        obtain ⟨rfl, -⟩ := ih hbody hbody'
        exact ⟨rfl, rfl⟩

theorem Storable.of_append {args' : List ℕ} (h : Storable (args ++ args')) : Storable args := by
  constructor
  · have hlen := h.1
    rw [length_append] at hlen
    omega
  · exact fun v hv => h.2 v (mem_append_left _ hv)

theorem Unwritten.snoc (h : Unwritten body) (cp : UInt32) : Unwritten (body ++ [cp]) := by
  intro args b hwritten hstorable
  cases writtenLast hwritten with
  | mark _ hbody => exact h _ _ hbody hstorable
  | first _ hbody => exact h _ _ hbody hstorable.of_append
  | more _ hbody =>
    refine h _ _ hbody ⟨by simpa using hstorable.1, fun x hx => ?_⟩
    obtain hx | hx := mem_append.mp hx
    · exact hstorable.2 x (mem_append_left _ hx)
    · have hlast := hstorable.2 _ (mem_append_right _ mem_cons_self)
      rw [mem_singleton.mp hx]
      omega
  | close _ hbody => exact h _ _ hbody hstorable
  | omitted _ hbody => exact h _ _ hbody hstorable.of_append

theorem unwritten_of_other (hdigit : ¬IsDigit cp) (hsemi : cp ≠ 0x3b)
    (hmark : cp = 0x3f → ¬Written body [] false) : Unwritten (body ++ [cp]) := by
  intro args b hwritten _
  cases writtenLast hwritten with
  | mark hcp hbody => exact hmark hcp hbody
  | first hd | more hd => exact hdigit hd
  | close hcp | omitted hcp => exact hsemi hcp

theorem take_set_succ {α : Type*} {l : List α} {n : ℕ} {v : α} (h : n < l.length) :
    (l.set n v).take (n + 1) = l.take n ++ [v] := by
  have hlen : (l.take n).length = n := length_take_of_le (Nat.le_of_lt h)
  rw [set_eq_take_append_cons_drop, if_pos h, take_append, hlen, Nat.add_sub_cancel_left,
    take_of_length_le (by omega)]
  rfl

/-! ### The parser in a control sequence -/

namespace TtyWr

variable {w w' : TtyWr} {action : TtyAction} {cps : List UInt32}

def storedArgs (w : TtyWr) : List ℕ :=
  (w.ansiCsiArgv.toList.take w.ansiCsiArgc.toNat).map UInt16.toNat

/-- The state with one more argument -/
def pushArg (w : TtyWr) (flag : UInt8) (v : UInt16) (h : w.ansiCsiArgc.toNat < 4) : TtyWr :=
  { w.set flag with
    ansiCsiArgc := w.ansiCsiArgc + 1
    ansiCsiArgv := w.ansiCsiArgv.set w.ansiCsiArgc.toNat v h }

theorem addArg_eq (h : w.ansiCsiArgc.toNat < 4) (flag : UInt8) (v : UInt16) :
    w.addArg flag v = .ok (w.pushArg flag v h) := by
  have hargc : ¬w.ansiCsiArgc ≥ 4 := by
    rw [ge_iff_le, UInt8.le_iff_toNat_le]
    exact Nat.not_le_of_lt h
  have hnext : (w.ansiCsiArgc + 1).toNat - 1 = w.ansiCsiArgc.toNat := by
    rw [UInt8.toNat_add]
    simp
    omega
  unfold addArg setLastArg pushArg
  rw [if_neg hargc]
  simp only [hnext, dif_pos h]
  rfl

theorem addArg_full (h : ¬w.ansiCsiArgc.toNat < 4) (flag : UInt8) (v : UInt16) :
    w.addArg flag v = .ok (w.set ansiIgnore) := by
  apply if_pos
  rw [ge_iff_le, UInt8.le_iff_toNat_le]
  exact Nat.not_lt.mp h

theorem storedArgs_pushArg (h : w.ansiCsiArgc.toNat < 4) (flag : UInt8) (v : UInt16) :
    (w.pushArg flag v h).storedArgs = w.storedArgs ++ [v.toNat] := by
  have hnext : (w.ansiCsiArgc + 1).toNat = w.ansiCsiArgc.toNat + 1 := by
    rw [UInt8.toNat_add]
    simp
    omega
  have hlen : w.ansiCsiArgc.toNat < w.ansiCsiArgv.toList.length := by simpa using h
  unfold storedArgs pushArg
  dsimp only
  rw [hnext, Vector.toList_set, take_set_succ hlen, map_append]
  rfl

def withLastArg (w : TtyWr) (v : UInt16) (h : w.ansiCsiArgc.toNat - 1 < 4) : TtyWr :=
  { w with ansiCsiArgv := w.ansiCsiArgv.set (w.ansiCsiArgc.toNat - 1) v h }

theorem setLastArg_eq (h : w.ansiCsiArgc.toNat - 1 < 4) (v : UInt16) :
    w.setLastArg v = .ok (w.withLastArg v h) := dif_pos h

theorem storedArgs_last (hpos : 0 < w.ansiCsiArgc.toNat) (h : w.ansiCsiArgc.toNat - 1 < 4) :
    ∃ args x, w.arg (w.ansiCsiArgc.toNat - 1) = .ok x ∧ w.storedArgs = args ++ [x.toNat] ∧
      ∀ v, (w.withLastArg v h).storedArgs = args ++ [v.toNat] := by
  have hlen : w.ansiCsiArgc.toNat - 1 < w.ansiCsiArgv.toList.length := by simpa using h
  have hsucc : w.ansiCsiArgc.toNat = w.ansiCsiArgc.toNat - 1 + 1 := by omega
  have hset : ∀ v, (w.withLastArg v h).storedArgs =
      (w.ansiCsiArgv.toList.take (w.ansiCsiArgc.toNat - 1)).map UInt16.toNat ++ [v.toNat] := by
    intro v
    unfold storedArgs withLastArg
    dsimp only
    rw [Vector.toList_set]
    generalize w.ansiCsiArgc.toNat - 1 = n at hsucc hlen
    rw [hsucc, take_set_succ hlen, map_append]
    rfl
  refine ⟨_, w.ansiCsiArgv[w.ansiCsiArgc.toNat - 1], ?_, ?_, hset⟩
  · rw [arg, Vector.getElem?_eq_getElem h]
  · have hsame : w.withLastArg w.ansiCsiArgv[w.ansiCsiArgc.toNat - 1] h = w := by
      unfold withLastArg
      rw [Vector.set_getElem_self]
    rw [← hset, hsame]

/-- What the parser has of the part `body` of a control sequence -/
structure Follows (w : TtyWr) (body : List UInt32) : Prop where
  stored : w.has ansiIgnore = false → Written body w.storedArgs (w.has ansiInArg)
  ignored : w.has ansiIgnore = true → Unwritten body

/-- The next digit does not take an argument past what can be stored, except where the source looks
for it. -/
def NoWrap (body : List UInt32) (cp : UInt32) : Prop :=
  ∀ args v, Written body (args ++ [v]) true → Storable (args ++ [v]) → IsDigit cp →
    10 * v ≤ 0xffff → 10 * v + digitValue cp ≤ 0xffff

inductive CsiStep (w : TtyWr) (body : List UInt32) : TtyWr → TtyAction → Prop
  | executed {action : TtyAction} : w.has ansiIgnore = false → IsCommand w.utf8Codepoint →
    w.ansiCsiArgc > 0 ∨ w.utf8Codepoint ≠ 0x5b → w.csiCommand = .ok action →
      CsiStep w body (w.setState ansiNormal) action
  | skipped : w.has ansiIgnore = true → IsCommand w.utf8Codepoint →
    CsiStep w body (w.setState ansiNormal) .skip
  | goesOn {w' : TtyWr} : (IsCommand w.utf8Codepoint → w.has ansiIgnore = false ∧
      ¬w.ansiCsiArgc > 0 ∧ w.utf8Codepoint = 0x5b) →
    w'.has ansiCsi = true → Follows w' (body ++ [w.utf8Codepoint]) → CsiStep w body w' .skip

theorem storable_storedArgs (hw : w.ansiCsiArgc.toNat ≤ 4) : Storable w.storedArgs := by
  constructor
  · simp [storedArgs, hw]
  · intro v hv
    obtain ⟨x, -, rfl⟩ := mem_map.mp hv
    exact Nat.le_of_lt_succ x.toNat_lt

theorem follows_ignore (h : Unwritten body) : Follows (w.set ansiIgnore) body := by
  have hignore : (w.set ansiIgnore).has ansiIgnore = true := by
    rw [has_set, Bool.or_eq_true]
    exact .inr (by decide)
  exact ⟨fun habs => absurd (hignore.symm.trans habs) (by decide), fun _ => h⟩

theorem length_storedArgs (hw : w.ansiCsiArgc.toNat ≤ 4) :
    w.storedArgs.length = w.ansiCsiArgc.toNat := by
  simp [storedArgs, hw]

theorem digit_not_command (hd : IsDigit cp) : ¬IsCommand cp := by
  intro hcommand
  have hlow := UInt32.le_iff_toNat_le.mp hd.2
  have hhigh := UInt32.le_iff_toNat_le.mp hcommand.1
  exact absurd (Nat.le_trans hhigh hlow) (by decide)

theorem toNat_digit (hd : IsDigit cp) : 48 ≤ cp.toNat ∧ cp.toNat ≤ 57 :=
  ⟨UInt32.le_iff_toNat_le.mp hd.1, UInt32.le_iff_toNat_le.mp hd.2⟩

theorem toNat_firstDigit (hd : IsDigit cp) : (cp.toUInt16 - 0x30).toNat = digitValue cp := by
  obtain ⟨hlow, hhigh⟩ := toNat_digit hd
  have hcp : cp.toUInt16.toNat = cp.toNat := by
    rw [UInt32.toNat_toUInt16]
    omega
  have hle : (0x30 : UInt16) ≤ cp.toUInt16 := by
    rw [UInt16.le_iff_toNat_le, hcp]
    exact hlow
  rw [UInt16.toNat_sub_of_le _ _ hle, hcp]
  rfl

theorem toNat_moreDigit (hd : IsDigit cp) {x : UInt16}
    (hle : 10 * x.toNat + digitValue cp ≤ 0xffff) :
    ((10 * x.toUInt32).toUInt16 + (cp - 0x30).toUInt16).toNat = 10 * x.toNat + digitValue cp := by
  obtain ⟨hlow, hhigh⟩ := toNat_digit hd
  have hle' : (0x30 : UInt32) ≤ cp := hd.1
  have hx := x.toNat_lt
  rw [UInt16.toNat_add, UInt32.toNat_toUInt16, UInt32.toNat_toUInt16, UInt32.toNat_mul,
    UInt32.toNat_sub_of_le _ _ hle', UInt16.toNat_toUInt32]
  unfold digitValue at hle ⊢
  simp only [UInt32.reduceToNat]
  omega

theorem toNat_timesTen (x : UInt16) : 10 * x.toUInt32 > 0xffff ↔ 0xffff < 10 * x.toNat := by
  have hx := x.toNat_lt
  have hten : (10 * x.toUInt32).toNat = 10 * x.toNat := by
    rw [UInt32.toNat_mul, UInt16.toNat_toUInt32]
    simp only [UInt32.reduceToNat]
    omega
  rw [gt_iff_lt, UInt32.lt_iff_toNat_lt, hten]
  rfl

theorem step_addArg (hargc : w.ansiCsiArgc.toNat ≤ 4) (hcsi : w.has ansiCsi = true)
    (hignore : w.has ansiIgnore = false) {flag : UInt8} {v : UInt16}
      (hflag : flag &&& ansiIgnore = 0)
    (hnext : Written (body ++ [cp]) (w.storedArgs ++ [v.toNat])
      (w.has ansiInArg || decide (flag &&& ansiInArg ≠ 0))) :
    ∃ w', w.addArg flag v = .ok w' ∧ w'.has ansiCsi = true ∧ Follows w' (body ++ [cp]) := by
  by_cases hlt : w.ansiCsiArgc.toNat < 4
  · have hno : (w.pushArg flag v hlt).has ansiIgnore = false := by
      change (w.set flag).has ansiIgnore = false
      rw [has_set, hignore, hflag]
      rfl
    refine ⟨_, addArg_eq hlt flag v, ?_, fun _ => ?_, fun habs => ?_⟩
    · change (w.set flag).has ansiCsi = true
      rw [has_set, hcsi, Bool.true_or]
    · rw [storedArgs_pushArg]
      change Written _ _ ((w.set flag).has ansiInArg)
      rwa [has_set]
    · exact absurd (hno.symm.trans habs) Bool.false_ne_true
  · refine ⟨_, addArg_full hlt flag v, ?_, follows_ignore fun args b hwritten hstorable => ?_⟩
    · rw [has_set, hcsi, Bool.true_or]
    · obtain ⟨rfl, -⟩ := hwritten.unique hnext
      have hlen := hstorable.1
      rw [length_append, length_storedArgs hargc] at hlen
      simp only [length_singleton] at hlen
      omega

theorem parseCsi_step (hw : Sane w) (hcsi : w.has ansiCsi = true) (hbody : Follows w body)
    (hwrap : NoWrap body w.utf8Codepoint) :
    ∃ w' action, w.parseCsi = .ok (w', action) ∧ CsiStep w body w' action := by
  have hkeep : ∀ f : UInt8, (w.set f).has ansiCsi = true := by
    intro f
    rw [has_set, hcsi, Bool.true_or]
  unfold parseCsi
  dsimp only
  split_ifs with hignore hcommand hdigit harg hsemi harg hmark hcommand
  · exact ⟨_, _, rfl, .skipped hignore hcommand⟩
  · exact ⟨_, _, rfl, .goesOn (fun habs => absurd habs hcommand) hcsi
      ⟨fun habs => absurd (hignore.symm.trans habs) (by decide),
        fun _ => (hbody.ignored hignore).snoc _⟩⟩
  all_goals have hno := eq_false_of_ne_true hignore
  all_goals have hwritten := hbody.stored hno
  · have hfirst : Written (body ++ [w.utf8Codepoint])
        (w.storedArgs ++ [(w.utf8Codepoint.toUInt16 - 0x30).toNat])
        (w.has ansiInArg || decide (ansiInArg &&& ansiInArg ≠ 0)) := by
      rw [harg] at hwritten ⊢
      rw [toNat_firstDigit hdigit]
      exact hwritten.first hdigit
    obtain ⟨w', hw', hcsi', hnext⟩ := step_addArg hw.argc hcsi hno (by decide) hfirst
    exact ⟨w', .skip, by simp only [hw', bind, Except.bind],
      .goesOn (fun habs => absurd habs (digit_not_command hdigit)) hcsi' hnext⟩
  · have harg' : w.has ansiInArg = true := eq_true_of_ne_false harg
    have hpos := hw.inArg hcsi harg'
    have hlt : w.ansiCsiArgc.toNat - 1 < 4 := by
      have hargc := hw.argc
      omega
    obtain ⟨args, x, hx, hstored, hset⟩ := storedArgs_last hpos hlt
    rw [harg', hstored] at hwritten
    have hstorable := storable_storedArgs hw.argc
    rw [hstored] at hstorable
    simp only [hx, bind, Except.bind]
    have hnext := hwritten.more hdigit
    by_cases hbig : 10 * x.toUInt32 > 0xffff
    · rw [if_pos hbig]
      refine ⟨_, _, rfl, .goesOn (fun habs => absurd habs (digit_not_command hdigit)) (hkeep _)
        (follows_ignore fun args' b hwritten' hstorable' => ?_)⟩
      obtain ⟨rfl, -⟩ := hwritten'.unique hnext
      have hlast := hstorable'.2 _ (mem_append_right _ mem_cons_self)
      have hbig' := (toNat_timesTen x).mp hbig
      omega
    · rw [if_neg hbig, setLastArg_eq hlt]
      have hten := Nat.not_lt.mp fun habs => hbig ((toNat_timesTen x).mpr habs)
      have hle := hwrap args x.toNat hwritten hstorable hdigit hten
      refine ⟨_, _, rfl, .goesOn (fun habs => absurd habs (digit_not_command hdigit)) hcsi
        ⟨fun _ => ?_, fun habs => absurd habs hignore⟩⟩
      rw [hset, toNat_moreDigit hdigit hle]
      change Written _ _ (w.has ansiInArg)
      rwa [harg']
  · refine ⟨_, _, rfl, .goesOn (fun habs => absurd (hsemi ▸ habs) (by decide)) ?_
      ⟨fun _ => ?_, fun habs => ?_⟩⟩
    · rw [has_unset (by decide), hcsi]
    · rw [harg] at hwritten
      rw [hsemi]
      have hclear : (w.unset ansiInArg).has ansiInArg = false := by
        have hzero : (~~~ansiInArg &&& ansiInArg : UInt8) = 0 := by decide
        simp only [has, unset, setState, UInt8.and_assoc, hzero, UInt8.and_zero]
        decide
      rw [hclear]
      exact hwritten.close
    · rw [has_unset (by decide)] at habs
      exact absurd habs hignore
  · have homitted : Written (body ++ [w.utf8Codepoint]) (w.storedArgs ++ [(0 : UInt16).toNat])
        (w.has ansiInArg || decide (0 &&& ansiInArg ≠ 0)) := by
      rw [eq_false_of_ne_true harg] at hwritten ⊢
      rw [hsemi]
      exact hwritten.omitted
    obtain ⟨w', hw', hcsi', hnext⟩ := step_addArg hw.argc hcsi hno (by decide) homitted
    exact ⟨w', .skip, by simp only [hw', bind, Except.bind],
      .goesOn (fun habs => absurd (hsemi ▸ habs) (by decide)) hcsi' hnext⟩
  · refine ⟨_, _, rfl, .goesOn (fun habs => absurd (hmark.1 ▸ habs) (by decide)) hcsi
      ⟨fun _ => ?_, fun habs => absurd habs hignore⟩⟩
    have hnil : w.storedArgs = [] := by
      rw [storedArgs, hmark.2.2]
      rfl
    rw [hnil, hmark.2.1] at hwritten ⊢
    rw [hmark.1]
    exact hwritten.mark
  · obtain ⟨action, haction⟩ := csiCommand_ok hw.argc
    exact ⟨_, action, by simp only [haction, bind, Except.bind],
      .executed hno ⟨hcommand.1, hcommand.2.1⟩ hcommand.2.2 haction⟩
  · refine ⟨_, _, rfl, .goesOn (fun habs => ⟨hno, ?_⟩) (hkeep _)
      (follows_ignore (unwritten_of_other hdigit hsemi fun hcp hbody' => ?_))⟩
    · have hnot : ¬(w.ansiCsiArgc > 0 ∨ w.utf8Codepoint ≠ 0x5b) :=
        fun hor => hcommand ⟨habs.1, habs.2, hor⟩
      exact ⟨fun hpos => hnot (.inl hpos), not_not.mp fun hne => hnot (.inr hne)⟩
    · obtain ⟨hargs, harg⟩ := hwritten.unique hbody'
      have hlen := length_storedArgs hw.argc
      rw [hargs, length_nil] at hlen
      exact hmark ⟨hcp, harg, UInt8.toNat_inj.mp hlen.symm⟩

/-! ### Streams -/

/-- The part of a control sequence that is open in `w'`, which `cp` has led to from `w`, where
`body` was open -/
def nextBody (w : TtyWr) (body : List UInt32) (cp : UInt32) (w' : TtyWr) : List UInt32 :=
  if w.has ansiCsi = true ∧ w'.has ansiCsi = true then body ++ [cp] else []

/-- The state that a stream of code points leads to from that of a new handle, and what is open of a
control sequence in it -/
inductive CsiRun : List UInt32 → TtyWr → List UInt32 → Prop
  | nil : CsiRun [] init []
  | snoc {cps : List UInt32} {w w' : TtyWr} {body : List UInt32} {cp : UInt32}
    {evs : List TtyEvent} : CsiRun cps w body → w.codeStep cp = .ok (w', evs) →
      CsiRun (cps ++ [cp]) w' (w.nextBody body cp w')

structure CsiRight (w : TtyWr) (body : List UInt32) (cp : UInt32) : Prop where
  argc : w.ansiCsiArgc.toNat ≤ 4
  succeeds : ∃ w' evs, w.codeStep cp = .ok (w', evs)
  executed : w.has ansiCsi = true → IsCommand cp → ∀ args b, Written body args b → Storable args →
    (args ≠ [] ∨ cp ≠ 0x5b) → w.storedArgs = args ∧
      ∃ action, (w.withDecoder cp 0).csiCommand = .ok action ∧
        w.codeStep cp = .ok ((w.withDecoder cp 0).setState ansiNormal, action.events cp)
  skipped : w.has ansiCsi = true → IsCommand cp → Unwritten body →
    w.codeStep cp = .ok ((w.withDecoder cp 0).setState ansiNormal, [])
  between : w.has ansiCsi = true → (IsCommand cp → cp = 0x5b ∧ Written body [] false) →
    ∃ w', w.codeStep cp = .ok (w', []) ∧ w'.has ansiCsi = true
  string : w.has ansiCsi = false → w.has ansiStControl = true →
    ∃ w', w.codeStep cp = .ok (w', []) ∧ (w.has ansiInString = false →
      cp = 0x07 ∨ cp = 0x5c ∧ w.has ansiEscapeSeen = true → w'.ansiParserState = ansiNormal)

def EveryStep (P : TtyWr → List UInt32 → UInt32 → Prop) (cps : List UInt32) : Prop :=
  ∀ before cp after, cps = before ++ cp :: after → ∀ w body, CsiRun before w body → P w body cp

theorem EveryStep.of_snoc {P : TtyWr → List UInt32 → UInt32 → Prop}
    (h : EveryStep P (cps ++ [cp])) : EveryStep P cps := by
  rintro before cp' after rfl
  exact h before cp' (after ++ [cp]) (by simp)

theorem parse_csi (hcsi : w.has ansiCsi = true) : w.parse = w.parseCsi := by
  have hne : ∀ state : UInt8, state &&& ansiCsi = 0 → w.ansiParserState ≠ state := by
    intro state hstate habs
    rw [has, habs, hstate] at hcsi
    exact absurd hcsi (by decide)
  unfold parse
  rw [if_neg (hne _ (by decide)), if_neg (hne _ (by decide)), if_pos hcsi]

theorem parseString_csi (hcsi : w.has ansiCsi = false) : w.parseString.has ansiCsi = false := by
  have hset : ∀ f : UInt8, f &&& ansiCsi = 0 → (w.set f).has ansiCsi = false := by
    intro f hf
    rw [has_set, hcsi, hf]
    rfl
  unfold parseString
  dsimp only
  split_ifs
  · rw [has_unset (by decide), hcsi]
  · exact hset _ (by decide)
  · exact hcsi
  · rw [has_unset (by decide), hcsi]
  · rw [has_setState]
    decide
  · exact hset _ (by decide)
  · rw [has_unset (by decide), has_unset (by decide), hset _ (by decide)]
  · rw [has_unset (by decide), hcsi]

theorem follows_begin (w : TtyWr) : Follows { w.setState ansiCsi with ansiCsiArgc := 0 } [] where
  stored := fun _ => by
    have hno : decide (ansiCsi &&& ansiInArg ≠ 0) = false := by decide
    change Written [] ((w.ansiCsiArgv.toList.take 0).map UInt16.toNat)
      (decide (ansiCsi &&& ansiInArg ≠ 0))
    rw [hno, take_zero]
    exact .start
  ignored := fun habs => by
    have hno : decide (ansiCsi &&& ansiIgnore ≠ 0) = false := by decide
    exact absurd (hno.symm.trans habs) Bool.false_ne_true

theorem parseEscape_csi (hcsi : w.has ansiCsi = false) (h : w.parseEscape.1.has ansiCsi = true) :
    Follows w.parseEscape.1 [] := by
  have hstate : ∀ state : UInt8, state &&& ansiCsi = 0 →
      (w.setState state).has ansiCsi = true → Follows (w.setState state) [] := by
    intro state hzero habs
    rw [has_setState, hzero] at habs
    exact absurd habs (by decide)
  unfold parseEscape at h ⊢
  dsimp only at h ⊢
  split at h
  case h_1 => exact follows_begin w
  case h_6 => exact absurd (hcsi.symm.trans h) Bool.false_ne_true
  case h_10 =>
    split_ifs at h ⊢
    · exact hstate _ (by decide) h
    · exact hstate _ (by decide) h
  all_goals exact hstate _ (by decide) h

theorem parse_begin (hcsi : w.has ansiCsi = false) (h : w.parse = .ok (w', action))
    (hcsi' : w'.has ansiCsi = true) : Follows w' [] := by
  unfold parse at h
  split_ifs at h with hnormal hesc hbegin hescape habs
  · cases h
    rw [has_setState] at hcsi'
    exact absurd hcsi' (by decide)
  · cases h
    exact follows_begin w
  · cases h
    exact absurd (hcsi.symm.trans hcsi') Bool.false_ne_true
  · have hstate : w.parseEscape.1 = w' := congrArg Prod.fst (Except.ok.inj h)
    rw [← hstate] at hcsi' ⊢
    exact parseEscape_csi hcsi hcsi'
  · exact absurd habs (by rw [hcsi]; decide)
  · cases h
    exact absurd ((parseString_csi hcsi).symm.trans hcsi') Bool.false_ne_true

theorem codeStep_ok {evs : List TtyEvent} (h : w.codeStep cp = .ok (w', evs)) :
    ∃ action, (w.withDecoder cp 0).parse = .ok (w', action) ∧ evs = action.events cp := by
  unfold codeStep at h
  cases hparse : (w.withDecoder cp 0).parse with
  | error e =>
    rw [hparse] at h
    cases h
  | ok r =>
    obtain ⟨v, action⟩ := r
    rw [hparse] at h
    cases h
    exact ⟨action, rfl, rfl⟩

theorem codeStep_of_parse (h : (w.withDecoder cp 0).parse = .ok (w', action)) :
    w.codeStep cp = .ok (w', action.events cp) := by
  unfold codeStep
  rw [h]

theorem codeStep_csi (hw : Sane w) (hcsi : w.has ansiCsi = true) (hbody : Follows w body)
    (hwrap : NoWrap body cp) : ∃ w' action, w.codeStep cp = .ok (w', action.events cp) ∧
      CsiStep (w.withDecoder cp 0) body w' action := by
  have hsane : Sane (w.withDecoder cp 0) := hw.congr rfl rfl
  have hfollows : Follows (w.withDecoder cp 0) body := { hbody with }
  obtain ⟨w', action, hparse, hstep⟩ := parseCsi_step hsane hcsi hfollows hwrap
  rw [← parse_csi (w := w.withDecoder cp 0) hcsi] at hparse
  exact ⟨w', action, codeStep_of_parse hparse, hstep⟩

theorem csiRun_follows (hrun : CsiRun cps w body) (h : EveryStep (fun _ => NoWrap) cps) :
    Sane w ∧ (w.has ansiCsi = true → Follows w body) := by
  induction hrun with
  | nil => exact ⟨sane_init, fun habs => absurd habs (by decide)⟩
  | @snoc cps w w' body cp evs hbefore hstep ih =>
    obtain ⟨hw, hfollows⟩ := ih h.of_snoc
    have hwrap : NoWrap body cp := h cps cp [] rfl w body hbefore
    obtain ⟨v, evs', hv, hsane⟩ := hw.codeStep cp
    cases hstep.symm.trans hv
    refine ⟨hsane, fun hcsi' => ?_⟩
    unfold nextBody
    by_cases hcsi : w.has ansiCsi = true
    · rw [if_pos ⟨hcsi, hcsi'⟩]
      obtain ⟨v, action, hv, hnext⟩ := codeStep_csi hw hcsi (hfollows hcsi) hwrap
      cases hstep.symm.trans hv
      cases hnext with
      | executed | skipped =>
        have hno : decide (ansiNormal &&& ansiCsi ≠ 0) = false := by decide
        exact absurd (hno.symm.trans hcsi') Bool.false_ne_true
      | goesOn _ _ hgoes => exact hgoes
    · rw [if_neg fun habs => hcsi habs.1]
      obtain ⟨action, hparse, -⟩ := codeStep_ok hstep
      exact parse_begin (w := w.withDecoder cp 0) (eq_false_of_ne_true hcsi) hparse hcsi'

theorem parse_string (hcsi : w.has ansiCsi = false) (hstring : w.has ansiStControl = true) :
    w.parse = .ok (w.parseString, .skip) := by
  have hne : ∀ state : UInt8, state &&& ansiStControl = 0 → w.ansiParserState ≠ state := by
    intro state hstate habs
    rw [has, habs, hstate] at hstring
    exact absurd hstring (by decide)
  unfold parse
  rw [if_neg (hne _ (by decide)), if_neg (hne _ (by decide)),
    if_neg (fun habs => Bool.false_ne_true (hcsi.symm.trans habs)), if_pos hstring]

theorem parseString_end (hquote : w.has ansiInString = false) (hend : w.utf8Codepoint = 0x07 ∨
    w.utf8Codepoint = 0x5c ∧ w.has ansiEscapeSeen = true) :
    w.parseString.ansiParserState = ansiNormal := by
  unfold parseString
  dsimp only
  rw [if_neg (fun habs => Bool.false_ne_true (hquote.symm.trans habs)), if_pos hend]
  rfl

theorem csiRight (hw : Sane w) (hbody : w.has ansiCsi = true → Follows w body)
    (hwrap : NoWrap body cp) : CsiRight w body cp where
  argc := hw.argc
  succeeds := by
    obtain ⟨w', evs, hstep, -⟩ := hw.codeStep cp
    exact ⟨w', evs, hstep⟩
  executed := by
    intro hcsi hcommand args b hwritten hstorable hend
    have hfollows := hbody hcsi
    obtain ⟨w', action, hstep, hnext⟩ := codeStep_csi hw hcsi hfollows hwrap
    have hstored : w.has ansiIgnore = false → w.storedArgs = args :=
      fun hno => ((hfollows.stored hno).unique hwritten).1
    cases hnext with
    | executed hno _ _ haction => exact ⟨hstored hno, action, haction, hstep⟩
    | skipped hignore => exact absurd hstorable (hfollows.ignored hignore args b hwritten)
    | goesOn hgoes =>
      obtain ⟨hno, hargc, hbracket⟩ := hgoes hcommand
      have hzero : w.ansiCsiArgc.toNat = 0 := by
        rw [gt_iff_lt, UInt8.lt_iff_toNat_lt] at hargc
        exact Nat.eq_zero_of_not_pos hargc
      have hnil : args = [] := by
        rw [← hstored hno, storedArgs, hzero]
        rfl
      obtain hne | hne := hend
      · exact absurd hnil hne
      · exact absurd hbracket hne
  skipped := by
    intro hcsi hcommand hunwritten
    have hfollows := hbody hcsi
    obtain ⟨w', action, hstep, hnext⟩ := codeStep_csi hw hcsi hfollows hwrap
    have habs : w.has ansiIgnore = false → False := fun hno =>
      hunwritten _ _ (hfollows.stored hno) (storable_storedArgs hw.argc)
    cases hnext with
    | executed hno => exact absurd hno habs
    | skipped => exact hstep
    | goesOn hgoes => exact absurd (hgoes hcommand).1 habs
  between := by
    intro hcsi hcommand
    have hfollows := hbody hcsi
    obtain ⟨w', action, hstep, hnext⟩ := codeStep_csi hw hcsi hfollows hwrap
    cases hnext with
    | executed hno hcp hend =>
      obtain ⟨hbracket, hnil⟩ := hcommand hcp
      obtain ⟨hargs, -⟩ := (hfollows.stored hno).unique hnil
      have hlen := length_storedArgs hw.argc
      rw [hargs, length_nil] at hlen
      obtain hpos | hne := hend
      · have hpos' : 0 < w.ansiCsiArgc.toNat := UInt8.lt_iff_toNat_lt.mp hpos
        omega
      · exact absurd hbracket hne
    | skipped hignore hcp =>
      exact absurd ⟨by decide, by simp⟩ (hfollows.ignored hignore [] false (hcommand hcp).2)
    | goesOn _ hcsi' => exact ⟨w', hstep, hcsi'⟩
  string := by
    intro hcsi hstring
    exact ⟨_, codeStep_of_parse (parse_string (w := w.withDecoder cp 0) hcsi hstring),
      fun hquote => parseString_end (w := w.withDecoder cp 0) hquote⟩

theorem everyStep_csiRight (h : EveryStep (fun _ => NoWrap) cps) : EveryStep CsiRight cps := by
  intro before cp after hcps w body hrun
  have hbefore : EveryStep (fun _ => NoWrap) before := by
    intro a c b hab
    exact h a c (b ++ cp :: after) (by rw [hcps, hab]; simp)
  obtain ⟨hw, hbody⟩ := csiRun_follows hrun hbefore
  exact csiRight hw hbody (h before cp after hcps w body hrun)

theorem csiRun_total (cps : List UInt32) : ∃ w body, CsiRun cps w body ∧ Sane w := by
  induction cps using reverseRecOn with
  | nil => exact ⟨init, [], .nil, sane_init⟩
  | append_singleton cps cp ih =>
    obtain ⟨w, body, hrun, hw⟩ := ih
    obtain ⟨w', evs, hstep, hw'⟩ := hw.codeStep cp
    exact ⟨w', _, hrun.snoc hstep, hw'⟩

/-- The parser never fails, and never has more than four arguments. While no digit takes an argument
past what can be stored where the source does not look for it, control sequences are executed with
the arguments that are written in them, or skipped. -/
theorem csi_right (cps : List UInt32) :
    (∃ w body, CsiRun cps w body ∧ w.ansiCsiArgc.toNat ≤ 4) ∧
      (EveryStep (fun _ => NoWrap) cps → EveryStep CsiRight cps) := by
  obtain ⟨w, body, hrun, hw⟩ := csiRun_total cps
  exact ⟨⟨w, body, hrun, hw.argc⟩, everyStep_csiRight⟩

/-- Five lines up and three to the right -/
theorem csi_right_up : EveryStep CsiRight [27, 91, 53, 65, 27, 91, 51, 67] := by
  refine (csi_right _).2 fun before cp after hcps w body _ args v _ _ hd hten => ?_
  have hmem : cp ∈ [27, 91, 53, 65, 27, 91, 51, 67] := by
    rw [hcps]
    exact List.mem_append_right _ List.mem_cons_self
  have hsmall : digitValue cp ≤ 5 := by
    have hall : [27, 91, 53, 65, 27, 91, 51, 67].all
        (fun d => decide (IsDigit d → digitValue d ≤ 5)) = true := by decide
    exact of_decide_eq_true (List.all_eq_true.mp hall cp hmem) hd
  omega

/-- An argument of 65536, with which the sequence is executed as one of 0 -/
theorem not_csiRight : ¬EveryStep CsiRight [27, 91, 54, 53, 53, 51, 54, 65] := by
  intro h
  have hbegin := @CsiRun.snoc _ _ _ _ 91 _ (@CsiRun.snoc _ _ _ _ 27 _ .nil rfl) rfl
  have hthree := @CsiRun.snoc _ _ _ _ 53 _ (@CsiRun.snoc _ _ _ _ 53 _
    (@CsiRun.snoc _ _ _ _ 54 _ hbegin rfl) rfl) rfl
  have hrun : CsiRun [27, 91, 54, 53, 53, 51, 54]
      ⟨54, 0, 0, ansiCsi ||| ansiInArg, 1, ⟨#[0, 0, 0, 0], rfl⟩⟩ [54, 53, 53, 51, 54] :=
    @CsiRun.snoc _ _ _ _ 54 _ (@CsiRun.snoc _ _ _ _ 51 _ hthree rfl) rfl
  have htwo : Written [54, 53] [65] true :=
    @Written.more [54] [] 6 53 (@Written.first [] [] 54 .start (by decide)) (by decide)
  have hfour : Written [54, 53, 53, 51] [6553] true := @Written.more [54, 53, 53] [] 655 51
    (@Written.more [54, 53] [] 65 53 htwo (by decide)) (by decide)
  have hfive : Written [54, 53, 53, 51, 54] [65536] true :=
    @Written.more [54, 53, 53, 51] [] 6553 54 hfour (by decide)
  have hunwritten : Unwritten [54, 53, 53, 51, 54] := by
    intro args b hwritten hstorable
    obtain ⟨rfl, -⟩ := hwritten.unique hfive
    exact absurd (hstorable.2 65536 List.mem_cons_self) (by decide)
  have hskip := (h _ 65 [] rfl _ _ hrun).skipped rfl (by decide) hunwritten
  have hmoved : ∀ v : TtyWr,
      codeStep ⟨54, 0, 0, ansiCsi ||| ansiInArg, 1, ⟨#[0, 0, 0, 0], rfl⟩⟩ 65 ≠
      .ok (v, []) := fun v habs => nomatch habs
  exact hmoved _ hskip

end TtyWr

end LibuvWorks.Win
