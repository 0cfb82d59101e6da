import LibuvWorks.Lib.Transducer
import LibuvWorks.Win.TtyWrite

/-!
# What console output does not depend on

The bytes go through the decoder and the parser one by one, whichever buffer and call they come in:
`uv_tty_write_bufs` implements a machine that reads bytes and writes code units and console calls.
-/
namespace LibuvWorks.Win

open Transducer List

/-- What is seen on the console: a code unit, or a call that is not for text. -/
abbrev ConsoleItem := UInt16 ⊕ ConsoleCall

def ConsoleCall.items : ConsoleCall → List ConsoleItem
  | .emitText text => text.map .inl
  | call => [.inr call]

/-- The calls of the console, with the texts between the other ones joined. -/
def consoleItems (calls : List ConsoleCall) : List ConsoleItem := calls.flatMap ConsoleCall.items

/-- What an action writes, and the state after it. -/
def TtyAction.items (w : TtyWr) : TtyAction → TtyWr × List ConsoleItem
  | .skip => (w, [])
  | .flush none => (w, [])
  | .flush (some call) => (w, call.items)
  | .emit => (w.encode.1, w.encode.2.map .inl)

/-- A byte in the decoder and the parser, and whether it comes again. -/
def TtyWr.charStep (cc : Compiler) (w : TtyWr) (c : UInt8) :
    Except Fault ((TtyWr × List ConsoleItem) × Bool) :=
  if (w.decode cc c).1.utf8BytesLeft ≠ 0 then .ok (((w.decode cc c).1, []), (w.decode cc c).2)
  else
    match (w.decode cc c).1.parse with
    | .error e => .error e
    | .ok (w', action) => .ok (action.items w', (w.decode cc c).2)

/-- What a byte does. -/
def TtyWr.byteStep (cc : Compiler) (w : TtyWr) (c : UInt8) :
    Except Fault (TtyWr × List ConsoleItem) :=
  match w.charStep cc c with
  | .error e => .error e
  | .ok ((w', os), again) =>
    if again then
      match w'.charStep cc c with
      | .error e => .error e
      | .ok ((w'', ps), _) => .ok (w'', os ++ ps)
    else .ok (w', os)

/-! ## The text buffer -/

namespace TtyWriter

variable {t : TtyWriter}

def items (t : TtyWriter) : List ConsoleItem := consoleItems t.calls ++ t.utf16Buf.map .inl

def Fits (t : TtyWriter) : Prop := t.utf16Buf.length ≤ utf16BufSize

theorem consoleItems_append (calls more : List ConsoleCall) :
    consoleItems (calls ++ more) = consoleItems calls ++ consoleItems more :=
  flatMap_append

theorem consoleItems_single (call : ConsoleCall) : consoleItems [call] = call.items :=
  flatMap_singleton ..

@[simp] theorem flushText_wr : t.flushText.wr = t.wr := by
  unfold flushText
  split_ifs <;> rfl

@[simp] theorem flushText_utf16Buf : t.flushText.utf16Buf = [] := by
  unfold flushText
  split_ifs with h
  · rfl
  · exact length_eq_zero_iff.mp (by omega)

@[simp] theorem flushText_calls : consoleItems t.flushText.calls = t.items := by
  unfold flushText
  split_ifs with h
  · rw [consoleItems_append, consoleItems_single]
    rfl
  · have hnil : t.utf16Buf = [] := length_eq_zero_iff.mp (by omega)
    rw [items, hnil, map_nil, append_nil]

@[simp] theorem flushText_items : t.flushText.items = t.items := by
  rw [items, flushText_calls, flushText_utf16Buf, map_nil, append_nil]

@[simp] theorem ensureBufferSpace_wr (n : ℕ) : (t.ensureBufferSpace n).wr = t.wr := by
  unfold ensureBufferSpace
  split_ifs
  · exact flushText_wr
  · rfl

@[simp] theorem ensureBufferSpace_items (n : ℕ) : (t.ensureBufferSpace n).items = t.items := by
  unfold ensureBufferSpace
  split_ifs
  · exact flushText_items
  · rfl

theorem ensureBufferSpace_length (ht : t.Fits) {n : ℕ} (hn : n ≤ utf16BufSize) :
    (t.ensureBufferSpace n).utf16Buf.length + n ≤ utf16BufSize := by
  unfold Fits at ht
  unfold ensureBufferSpace
  split_ifs
  · rw [flushText_utf16Buf, length_nil, Nat.zero_add]
    exact hn
  · omega

theorem put_spec (ht : t.Fits) {text : List UInt16} (htext : text.length ≤ utf16BufSize) :
    ∃ u, t.put text = .ok u ∧ u.Fits ∧ u.wr = t.wr ∧ u.items = t.items ++ text.map .inl := by
  have hroom := ensureBufferSpace_length ht htext
  refine ⟨_, if_pos hroom, ?_, ensureBufferSpace_wr _, ?_⟩
  · rw [Fits, length_append]
    exact hroom
  · have hitems := ensureBufferSpace_items (t := t) text.length
    rw [items] at hitems
    rw [items, map_append, ← append_assoc, hitems]

theorem encode_length (w : TtyWr) : w.encode.2.length ≤ 2 := by
  unfold TtyWr.encode
  dsimp only
  split_ifs <;> simp

theorem act_spec (ht : t.Fits) (w : TtyWr) (action : TtyAction) :
    ∃ u, t.act w action = .ok u ∧ u.Fits ∧ u.wr = (action.items w).1 ∧
      u.items = t.items ++ (action.items w).2 := by
  cases action with
  | skip => exact ⟨_, rfl, ht, rfl, (append_nil _).symm⟩
  | flush call =>
    cases call with
    | none =>
      refine ⟨_, rfl, ?_, rfl, ?_⟩
      · simp [Fits]
      · rw [TtyAction.items, append_nil]
        exact flushText_items
    | some call =>
      refine ⟨_, rfl, ?_, rfl, ?_⟩
      · simp [Fits]
      · simp only [items, consoleItems_append, consoleItems_single, flushText_calls,
          flushText_utf16Buf, map_nil, append_nil, TtyAction.items]
  | emit =>
    have hlen : w.encode.2.length ≤ utf16BufSize := Nat.le_trans (encode_length w) (by decide)
    obtain ⟨u, hu, hfits, hwr, hitems⟩ := put_spec (t := { t with wr := w.encode.1 }) ht hlen
    exact ⟨u, hu, hfits, hwr, hitems⟩

theorem parseByte_error (cc : Compiler) {c : UInt8} {e : Fault}
    (h : t.wr.charStep cc c = .error e) : t.parseByte cc c = .error e := by
  unfold TtyWr.charStep at h
  unfold parseByte
  dsimp only
  split_ifs at h ⊢ with hleft
  cases hparse : (t.wr.decode cc c).1.parse with
  | error e' =>
    rw [hparse] at h
    cases h
    rfl
  | ok r => simp [hparse] at h

theorem parseByte_ok (cc : Compiler) (ht : t.Fits) {c : UInt8} {w : TtyWr} {os : List ConsoleItem}
    {again : Bool} (h : t.wr.charStep cc c = .ok ((w, os), again)) :
    ∃ u, t.parseByte cc c = .ok (u, again) ∧ u.Fits ∧ u.wr = w ∧ u.items = t.items ++ os := by
  unfold TtyWr.charStep at h
  unfold parseByte
  dsimp only
  split_ifs at h ⊢ with hleft
  · cases h
    exact ⟨_, rfl, ht, rfl, (append_nil _).symm⟩
  · cases hparse : (t.wr.decode cc c).1.parse with
    | error e => simp [hparse] at h
    | ok r =>
      obtain ⟨w', action⟩ := r
      simp only [hparse, Except.ok.injEq, Prod.mk.injEq] at h
      obtain ⟨u, hu, hfits, hwr, hitems⟩ := act_spec ht w' action
      obtain ⟨hw, rfl⟩ := h
      rw [hw] at hwr hitems
      refine ⟨u, ?_, hfits, hwr, hitems⟩
      simp [bind, Except.bind, hu]

theorem writeByte_implements (cc : Compiler) :
    Implements (TtyWr.byteStep cc) (fun t c => t.writeByte cc c) wr items Fits where
  error := by
    intro t c e ht h
    unfold TtyWr.byteStep at h
    unfold writeByte
    cases hfirst : t.wr.charStep cc c with
    | error e' =>
      simp only [hfirst, Except.error.injEq] at h
      rw [parseByte_error cc hfirst, h]
      rfl
    | ok r =>
      obtain ⟨⟨w, os⟩, again⟩ := r
      obtain ⟨u, hu, hfits, rfl, -⟩ := parseByte_ok cc ht hfirst
      rw [hu]
      simp only [hfirst] at h
      split_ifs at h with hagain
      cases hsecond : u.wr.charStep cc c with
      | error e' =>
        simp only [hsecond, Except.error.injEq] at h
        simp [bind, Except.bind, hagain, parseByte_error cc hsecond, h]
      | ok r => simp [hsecond] at h
  done := by
    intro t c s os ht h
    unfold TtyWr.byteStep at h
    unfold writeByte
    cases hfirst : t.wr.charStep cc c with
    | error e => simp [hfirst] at h
    | ok r =>
      obtain ⟨⟨w, ps⟩, again⟩ := r
      obtain ⟨u, hu, hfits, rfl, hitems⟩ := parseByte_ok cc ht hfirst
      rw [hu]
      simp only [hfirst] at h
      split_ifs at h with hagain
      · cases hsecond : u.wr.charStep cc c with
        | error e => simp [hsecond] at h
        | ok r =>
          obtain ⟨⟨w', qs⟩, again'⟩ := r
          obtain ⟨v, hv, hfits', rfl, hitems'⟩ := parseByte_ok cc hfits hsecond
          simp only [hsecond, Except.ok.injEq, Prod.mk.injEq] at h
          obtain ⟨rfl, rfl⟩ := h
          refine ⟨v, ?_, hfits', rfl, ?_⟩
          · simp [bind, Except.bind, hagain, hv]
          · rw [hitems', hitems, append_assoc]
      · simp only [Except.ok.injEq, Prod.mk.injEq] at h
        obtain ⟨rfl, rfl⟩ := h
        refine ⟨u, ?_, hfits, rfl, hitems⟩
        simp [bind, Except.bind, hagain]

end TtyWriter

/-! ## Calls of `uv_tty_write_bufs` -/

theorem ttyWrite_implements (cc : Compiler) :
    Implements (run (run (TtyWr.byteStep cc))) (ttyWrite cc) Prod.fst
      (fun r => consoleItems r.2) (fun _ => True) := by
  have hbufs := (TtyWriter.writeByte_implements cc).foldlM.foldlM
  have hfits : ∀ w, TtyWriter.Fits ⟨w, [], []⟩ := fun w => Nat.zero_le _
  constructor
  · intro r bufs e _ hrun
    have herr := hbufs.error ⟨r.1, [], []⟩ bufs e (hfits r.1) hrun
    simp [ttyWrite, uvTtyWriteBufs, herr, bind, Except.bind]
  · intro r bufs w os _ hrun
    obtain ⟨u, hu, -, hwr, hitems⟩ := hbufs.done ⟨r.1, [], []⟩ bufs w os (hfits r.1) hrun
    refine ⟨(u.flushText.wr, r.2 ++ u.flushText.calls), ?_, trivial, ?_, ?_⟩
    · simp [ttyWrite, uvTtyWriteBufs, hu, bind, Except.bind]
    · rw [TtyWriter.flushText_wr, hwr]
    · rw [TtyWriter.consoleItems_append, TtyWriter.flushText_calls, hitems]
      rfl

/-- What is seen of calls of `uv_tty_write_bufs` is what the machine writes for their bytes. -/
theorem ttyWrites_eq (cc : Compiler) (w : TtyWr) (calls : List (List (List UInt8))) :
    (ttyWrites cc w calls).map (fun r => (r.1, consoleItems r.2)) =
      run (TtyWr.byteStep cc) w calls.flatten.flatten := by
  have h := (ttyWrite_implements cc).map_foldlM (w, []) trivial calls
  rw [run_flatten, run_flatten] at h
  rw [ttyWrites, h]
  cases run (TtyWr.byteStep cc) w calls.flatten.flatten with
  | error e | ok r => rfl

/-! ## The states of the parser -/

/-- The parser knows its state, and the arguments of a control sequence are in the array. -/
structure TtyWr.Sane (w : TtyWr) : Prop where
  known : w.ansiParserState = ansiNormal ∨ w.ansiParserState = ansiEscapeSeen ∨
    w.has ansiCsi = true ∨ w.has ansiStControl = true
  argc : w.ansiCsiArgc.toNat ≤ 4
  inArg : w.has ansiCsi = true → w.has ansiInArg = true → 0 < w.ansiCsiArgc.toNat

namespace TtyWr

variable {w : TtyWr}

theorem has_setState (state g : UInt8) : (w.setState state).has g = decide (state &&& g ≠ 0) := rfl

theorem has_set (f g : UInt8) : (w.set f).has g = (w.has g || decide (f &&& g ≠ 0)) := by
  have hand : (w.ansiParserState ||| f) &&& g = (w.ansiParserState &&& g) ||| (f &&& g) := by
    apply UInt8.toBitVec_inj.mp
    ext i
    simp [Bool.and_or_distrib_right]
  simp only [has, set, setState, hand, ne_eq, UInt8.or_eq_zero_iff, not_and_or, Bool.decide_or]

theorem has_unset {f g : UInt8} (hfg : ~~~f &&& g = g) : (w.unset f).has g = w.has g := by
  simp only [has, unset, setState, UInt8.and_assoc, hfg]

theorem arg_ok {i : ℕ} (hi : i < 4) : ∃ v, w.arg i = .ok v := by
  have hsome : w.ansiCsiArgv[i]? = some w.ansiCsiArgv[i] := Vector.getElem?_eq_getElem hi
  exact ⟨_, by rw [arg, hsome]⟩

theorem argOr_ok (w : TtyWr) (d : ℤ) : ∃ v, w.argOr d = .ok v := by
  unfold argOr
  split_ifs
  · obtain ⟨v, hv⟩ := w.arg_ok (i := 0) (by decide)
    exact ⟨v.toNat, by simp [hv, bind, Except.bind]⟩
  · exact ⟨d, rfl⟩

theorem argIndex_ok (hw : w.ansiCsiArgc.toNat ≤ 4) (i : ℕ) : ∃ v, w.argIndex i = .ok v := by
  unfold argIndex
  split_ifs with hi
  · obtain ⟨v, hv⟩ := w.arg_ok (i := i) (by omega)
    simp only [hv, bind, Except.bind]
    exact ⟨_, rfl⟩
  · exact ⟨0, rfl⟩

theorem shown_ok (w : TtyWr) (visible : Bool) : ∃ action, w.shown visible = .ok action := by
  unfold shown
  split_ifs
  · obtain ⟨v, hv⟩ := w.arg_ok (i := 0) (by decide)
    simp only [hv, bind, Except.bind]
    exact ⟨_, rfl⟩
  · exact ⟨.skip, rfl⟩

theorem csiCommand_ok (hw : w.ansiCsiArgc.toNat ≤ 4) : ∃ action, w.csiCommand = .ok action := by
  obtain ⟨a, ha⟩ := argOr_ok w 0
  obtain ⟨b, hb⟩ := argOr_ok w 1
  obtain ⟨x, hx⟩ := argIndex_ok hw 0
  obtain ⟨y, hy⟩ := argIndex_ok hw 1
  have hstyle : w.styleArgs = .ok (w.ansiCsiArgv.toList.take w.ansiCsiArgc.toNat) := if_pos hw
  unfold csiCommand
  simp only [ha, hb, hx, hy, hstyle, bind, Except.bind]
  split
  case h_15 => exact w.shown_ok false
  case h_16 => exact w.shown_ok true
  all_goals exact ⟨_, rfl⟩

theorem sane_setState (hargc : w.ansiCsiArgc.toNat ≤ 4) {state : UInt8}
    (hstate : state = ansiNormal ∨ state = ansiEscapeSeen ∨ state = ansiStControl) :
    Sane (w.setState state) := by
  have hcsi : (w.setState state).has ansiCsi = false := by
    rw [has_setState]
    rcases hstate with rfl | rfl | rfl <;> decide
  refine ⟨?_, hargc, fun habs => absurd (hcsi.symm.trans habs) Bool.false_ne_true⟩
  rcases hstate with rfl | rfl | rfl
  · exact .inl (Eq.refl ansiNormal)
  · exact .inr (.inl (Eq.refl ansiEscapeSeen))
  · refine .inr (.inr (.inr ?_))
    rw [has_setState]
    decide

theorem sane_csi : Sane { w.setState ansiCsi with ansiCsiArgc := 0 } where
  known := by
    refine .inr (.inr (.inl ?_))
    change decide (ansiCsi &&& ansiCsi ≠ 0) = true
    decide
  argc := Nat.zero_le 4
  inArg := by
    intro _ habs
    have hno : decide (ansiCsi &&& ansiInArg ≠ 0) = false := by decide
    exact absurd (hno.symm.trans habs) Bool.false_ne_true

theorem Sane.ignore (hw : Sane w) (hcsi : w.has ansiCsi = true) : Sane (w.set ansiIgnore) where
  known := .inr (.inr (.inl (by rw [has_set, hcsi, Bool.true_or])))
  argc := hw.argc
  inArg := by
    intro _ harg
    have hno : decide (ansiIgnore &&& ansiInArg ≠ 0) = false := by decide
    rw [has_set, hno, Bool.or_false] at harg
    exact hw.inArg hcsi harg

theorem setLastArg_ok (hargc : w.ansiCsiArgc.toNat ≤ 4) (v : UInt16) :
    ∃ w', w.setLastArg v = .ok w' ∧ w'.ansiParserState = w.ansiParserState ∧
      w'.ansiCsiArgc = w.ansiCsiArgc := by
  have hlt : w.ansiCsiArgc.toNat - 1 < 4 := by omega
  exact ⟨_, dif_pos hlt, rfl, rfl⟩

theorem Sane.addArg (hw : Sane w) (hcsi : w.has ansiCsi = true) (flag : UInt8) (v : UInt16) :
    ∃ w', w.addArg flag v = .ok w' ∧ Sane w' := by
  unfold TtyWr.addArg
  split_ifs with hargc
  · exact ⟨_, rfl, hw.ignore hcsi⟩
  · have hlt : w.ansiCsiArgc.toNat < 4 := by
      rw [ge_iff_le, UInt8.le_iff_toNat_le] at hargc
      simpa using hargc
    have hnext : (w.ansiCsiArgc + 1).toNat = w.ansiCsiArgc.toNat + 1 := by
      rw [UInt8.toNat_add]
      simp
      omega
    obtain ⟨w', hw', hstate, hargc'⟩ :=
      setLastArg_ok (w := { w.set flag with ansiCsiArgc := w.ansiCsiArgc + 1 })
        (by rw [hnext]; omega) v
    have hhas : w'.has ansiCsi = true := by
      rw [has, hstate]
      change (w.set flag).has ansiCsi = true
      rw [has_set, hcsi, Bool.true_or]
    have hcount : w'.ansiCsiArgc.toNat = w.ansiCsiArgc.toNat + 1 := by rw [hargc', hnext]
    exact ⟨w', hw', .inr (.inr (.inl hhas)), by omega, fun _ _ => by omega⟩

theorem Sane.parseCsi (hw : Sane w) (hcsi : w.has ansiCsi = true) :
    ∃ w' action, w.parseCsi = .ok (w', action) ∧ Sane w' := by
  have hnormal : Sane (w.setState ansiNormal) := sane_setState hw.argc (.inl rfl)
  unfold TtyWr.parseCsi
  dsimp only
  split_ifs with hignore _ hdigit harg hsemi harg _ hcommand
  · exact ⟨_, _, rfl, hnormal⟩
  · exact ⟨_, _, rfl, hw⟩
  · obtain ⟨w', hw', hsane⟩ := hw.addArg hcsi ansiInArg (w.utf8Codepoint.toUInt16 - 0x30)
    exact ⟨w', .skip, by simp only [hw', bind, Except.bind], hsane⟩
  · have harg' : w.has ansiInArg = true := eq_true_of_ne_false harg
    have hpos := hw.inArg hcsi harg'
    have hargc := hw.argc
    obtain ⟨v, hv⟩ := w.arg_ok (i := w.ansiCsiArgc.toNat - 1) (by omega)
    simp only [hv, bind, Except.bind]
    split_ifs
    · exact ⟨_, _, rfl, hw.ignore hcsi⟩
    · obtain ⟨w', hw', hstate, hargc'⟩ := setLastArg_ok hw.argc
        ((10 * v.toUInt32).toUInt16 + (w.utf8Codepoint - 0x30).toUInt16)
      refine ⟨w', .skip, by simp only [hw'], ?_, ?_, ?_⟩
      · simp only [has, hstate]
        exact hw.known
      · rw [hargc']
        exact hw.argc
      · rw [hargc']
        exact fun _ _ => hpos
  · refine ⟨_, _, rfl, .inr (.inr (.inl ?_)), hw.argc, fun _ habs => ?_⟩
    · rw [has_unset (by decide), hcsi]
    · have hno : (w.unset ansiInArg).has ansiInArg = false := by
        have hzero : (~~~ansiInArg &&& ansiInArg : UInt8) = 0 := by decide
        simp only [has, unset, setState, UInt8.and_assoc, hzero, UInt8.and_zero]
        decide
      exact absurd (hno.symm.trans habs) Bool.false_ne_true
  · obtain ⟨w', hw', hsane⟩ := hw.addArg hcsi 0 0
    exact ⟨w', .skip, by simp only [hw', bind, Except.bind], hsane⟩
  · exact ⟨_, _, rfl, hw⟩
  · obtain ⟨action, haction⟩ := csiCommand_ok hw.argc
    exact ⟨_, action, by simp only [haction, bind, Except.bind], hnormal⟩
  · exact ⟨_, _, rfl, hw.ignore hcsi⟩

theorem Sane.parseEscape (hw : Sane w) : Sane w.parseEscape.1 := by
  have hnormal : Sane (w.setState ansiNormal) := sane_setState hw.argc (.inl rfl)
  have hstring : Sane (w.setState ansiStControl) := sane_setState hw.argc (.inr (.inr rfl))
  unfold TtyWr.parseEscape
  dsimp only
  split
  case h_1 => exact sane_csi
  case h_6 => exact hw
  case h_10 => split_ifs <;> exact hnormal
  case h_2 | h_3 | h_4 | h_5 => exact hstring
  all_goals exact hnormal

theorem sane_string (hargc : w.ansiCsiArgc.toNat ≤ 4) (hcsi : w.has ansiCsi = false)
    (hstring : w.has ansiStControl = true) : Sane w :=
  ⟨.inr (.inr (.inr hstring)), hargc, fun habs => absurd (hcsi.symm.trans habs) Bool.false_ne_true⟩

theorem Sane.parseString (hw : Sane w) (hcsi : w.has ansiCsi = false)
    (hstring : w.has ansiStControl = true) : Sane w.parseString := by
  have hset : ∀ f : UInt8, f &&& ansiCsi = 0 → Sane (w.set f) := by
    intro f hf
    apply sane_string (w := w.set f) hw.argc
    · rw [has_set, hcsi, hf]
      rfl
    · rw [has_set, hstring, Bool.true_or]
  have hunset : ∀ {v : TtyWr}, v.ansiCsiArgc.toNat ≤ 4 → v.has ansiCsi = false →
      v.has ansiStControl = true → ∀ f : UInt8, ~~~f &&& ansiCsi = ansiCsi →
      ~~~f &&& ansiStControl = ansiStControl → Sane (v.unset f) := by
    intro v hargc hcsi hstring f hf hf'
    apply sane_string (w := v.unset f) hargc
    · rw [has_unset hf, hcsi]
    · rw [has_unset hf', hstring]
  have hclear := hunset hw.argc hcsi hstring
  unfold TtyWr.parseString
  dsimp only
  split_ifs
  · exact hclear _ (by decide) (by decide)
  · exact hset _ (by decide)
  · exact hw
  · exact hclear _ (by decide) (by decide)
  · exact sane_setState hw.argc (.inl rfl)
  · exact hset _ (by decide)
  · apply hunset
    · exact hw.argc
    · rw [has_unset (by decide), has_set, hcsi]
      decide
    · rw [has_unset (by decide), has_set, hstring, Bool.true_or]
    · decide
    · decide
  · exact hclear _ (by decide) (by decide)

theorem Sane.parse (hw : Sane w) : ∃ w' action, w.parse = .ok (w', action) ∧ Sane w' := by
  unfold TtyWr.parse
  split_ifs with hnormal _ _ hescape hcsi hstring
  · exact ⟨_, _, rfl, sane_setState hw.argc (.inr (.inl rfl))⟩
  · exact ⟨_, _, rfl, sane_csi⟩
  · exact ⟨_, _, rfl, hw⟩
  · exact ⟨_, _, rfl, hw.parseEscape⟩
  · exact hw.parseCsi hcsi
  · exact ⟨_, _, rfl, hw.parseString (eq_false_of_ne_true hcsi) hstring⟩
  · rcases hw.known with h | h | h | h
    · exact absurd h hnormal
    · exact absurd h hescape
    · exact absurd h hcsi
    · exact absurd h hstring

theorem Sane.congr {w' : TtyWr} (hw : Sane w) (hstate : w'.ansiParserState = w.ansiParserState)
    (hargc : w'.ansiCsiArgc = w.ansiCsiArgc) : Sane w' := by
  have hhas : ∀ f, w'.has f = w.has f := by
    intro f
    rw [has, has, hstate]
  constructor
  · rw [hstate, hhas, hhas]
    exact hw.known
  · rw [hargc]
    exact hw.argc
  · rw [hhas, hhas, hargc]
    exact hw.inArg

theorem Sane.decode (hw : Sane w) (cc : Compiler) (c : UInt8) : Sane (w.decode cc c).1 := by
  apply hw.congr
  all_goals
    unfold TtyWr.decode
    split_ifs
    · cases firstZeroBit cc c with
      | none => rfl
      | some b =>
        dsimp only
        split_ifs <;> rfl
    · rfl
    · rfl

theorem Sane.items (hw : Sane w) (action : TtyAction) : Sane (action.items w).1 := by
  cases action with
  | skip => exact hw
  | flush call => cases call <;> exact hw
  | emit =>
    apply hw.congr
    all_goals
      simp only [TtyAction.items, TtyWr.encode]
      split_ifs <;> rfl

theorem Sane.charStep (hw : Sane w) (cc : Compiler) (c : UInt8) :
    ∃ w' os again, w.charStep cc c = .ok ((w', os), again) ∧ Sane w' := by
  have hdecode := hw.decode cc c
  unfold TtyWr.charStep
  split_ifs
  · exact ⟨_, _, _, rfl, hdecode⟩
  · obtain ⟨w', action, hparse, hsane⟩ := hdecode.parse
    rw [hparse]
    exact ⟨_, _, _, rfl, hsane.items action⟩

theorem Sane.byteStep (hw : Sane w) (cc : Compiler) (c : UInt8) :
    ∃ w' os, w.byteStep cc c = .ok (w', os) ∧ Sane w' := by
  obtain ⟨w', os, again, hfirst, hsane⟩ := hw.charStep cc c
  obtain ⟨w'', ps, again', hsecond, hsane'⟩ := hsane.charStep cc c
  unfold TtyWr.byteStep
  simp only [hfirst, hsecond]
  split_ifs
  · exact ⟨w'', os ++ ps, rfl, hsane'⟩
  · exact ⟨w', os, rfl, hsane⟩

end TtyWr

/-- However the same bytes are divided into buffers and calls, the console sees the same and the
handle is left in the same state; and in a state the parser knows nothing fails. -/
theorem ttyWrites_split (cc : Compiler) (w : TtyWr) (cs ds : List (List (List UInt8)))
    (hsame : cs.flatten.flatten = ds.flatten.flatten) :
    (ttyWrites cc w cs).map (fun r => (r.1, consoleItems r.2)) =
        (ttyWrites cc w ds).map (fun r => (r.1, consoleItems r.2)) ∧
      (w.Sane → ∃ r, ttyWrites cc w cs = .ok r ∧ r.1.Sane) := by
  constructor
  · rw [ttyWrites_eq, ttyWrites_eq, hsame]
  · intro hw
    obtain ⟨t, os, hrun, hsane⟩ :=
      run_ok (fun w c hw => TtyWr.Sane.byteStep hw cc c) hw cs.flatten.flatten
    have heq := ttyWrites_eq cc w cs
    rw [hrun] at heq
    cases hr : ttyWrites cc w cs with
    | error e =>
      rw [hr] at heq
      cases heq
    | ok r =>
      rw [hr] at heq
      cases heq
      exact ⟨r, rfl, hsane⟩

def TtyWr.init : TtyWr := ⟨0, 0, 0, ansiNormal, 0, ⟨#[0, 0, 0, 0], rfl⟩⟩

theorem TtyWr.sane_init : TtyWr.init.Sane where
  known := .inl (Eq.refl ansiNormal)
  argc := Nat.zero_le 4
  inArg := by decide

/-- A cut in a character, in a sequence and between the bytes of a line end: a euro sign, a line
end, and a caret move by 12 lines. -/
theorem ttyWrites_split_euro :
    (ttyWrites .msvc .init [[[0xe2], [0x82]], [[0xac, 0x0d], [0x0a, 0x1b, 0x5b, 0x31]],
        [[], [0x32, 0x41]]]).map (fun r => (r.1, consoleItems r.2)) =
      (ttyWrites .msvc .init [[[0xe2, 0x82, 0xac, 0x0d, 0x0a, 0x1b, 0x5b, 0x31, 0x32, 0x41]]]).map
        (fun r => (r.1, consoleItems r.2)) ∧
    (TtyWr.init.Sane → ∃ r, ttyWrites .msvc .init [[[0xe2], [0x82]], [[0xac, 0x0d],
      [0x0a, 0x1b, 0x5b, 0x31]], [[], [0x32, 0x41]]] = .ok r ∧ r.1.Sane) :=
  ttyWrites_split .msvc .init _ _ (by decide)

end LibuvWorks.Win
