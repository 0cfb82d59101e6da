import LibuvWorks.Win.TtyDecoder

/-!
# The decoder, the parser and the line ends, one after the other

What `uv_tty_write_bufs` does with a stream of bytes is what the conversion of line ends makes of
what the parser makes of the code points of the stream.
-/
namespace LibuvWorks.Win

open Transducer List

/-- What the parser makes of code points: text, and calls of the console. -/
inductive TtyEvent where
  | text (cp : UInt32) : TtyEvent
  | call (c : ConsoleCall) : TtyEvent

def TtyAction.events (cp : UInt32) : TtyAction → List TtyEvent
  | .skip => []
  | .flush none => []
  | .flush (some c) => [.call c]
  | .emit => [.text cp]

/-- A code point in the parser -/
def TtyWr.codeStep (w : TtyWr) (cp : UInt32) : Except Fault (TtyWr × List TtyEvent) :=
  match (w.withDecoder cp 0).parse with
  | .error e => .error e
  | .ok (w', action) => .ok (w', action.events cp)

def shownCode (cp : UInt32) : UInt32 := if cp > 0xffff then unicodeReplacementCharacter else cp

def eolOf (cp : UInt32) : UInt8 := if cp = 0x0a ∨ cp = 0x0d then cp.toUInt8 else 0

/-- The code units for a code point after the end of line `eol` -/
def lineUnits (eol : UInt8) (cp : UInt32) : List UInt16 :=
  if cp = 0x0a ∧ eol ≠ 0x0d then [0x0d, 0x0a]
  else if cp = 0x0d ∧ eol = 0x0a then []
  else [cp.toUInt16]

/-- What is written for an event after the end of line `eol`, and the end of line after it. -/
def TtyEvent.items (eol : UInt8) : TtyEvent → UInt8 × List ConsoleItem
  | .call c => (eol, c.items)
  | .text cp => (eolOf (shownCode cp), (lineUnits eol (shownCode cp)).map .inl)

def lines : UInt8 → List TtyEvent → List ConsoleItem
  | _, [] => []
  | eol, ev :: evs => (ev.items eol).2 ++ lines (ev.items eol).1 evs

def lastEol (eol : UInt8) (evs : List TtyEvent) : UInt8 :=
  evs.foldl (fun eol ev => (ev.items eol).1) eol

theorem lines_append (eol : UInt8) (evs evs' : List TtyEvent) :
    lines eol (evs ++ evs') = lines eol evs ++ lines (lastEol eol evs) evs' := by
  induction evs generalizing eol with
  | nil => rfl
  | cons ev evs ih =>
    rw [cons_append, lines, lines, ih, append_assoc]
    rfl

theorem lastEol_append (eol : UInt8) (evs evs' : List TtyEvent) :
    lastEol eol (evs ++ evs') = lastEol (lastEol eol evs) evs' := foldl_append

namespace TtyWr

variable {w v : TtyWr} {cp : UInt32} {c : UInt8}

/-! ### What the parser does not use -/

def withRest (w : TtyWr) (cp : UInt32) (left eol : UInt8) : TtyWr :=
  { w with utf8Codepoint := cp, utf8BytesLeft := left, previousEol := eol }

variable (left eol : UInt8)

theorem ite_eq_apply {α β : Type} (f : α → β) {p q : Prop} [Decidable p] [Decidable q] {x y : β}
    {x' y' : α} (hpq : p = q) (hx : x = f x') (hy : y = f y') :
    (if p then x else y) = f (if q then x' else y') := by
  subst hx hy
  rw [apply_ite f]
  exact ite_congr hpq (fun _ => rfl) fun _ => rfl

theorem map_ite {α β : Type} {p q : Prop} [Decidable p] [Decidable q] {f : α → β}
    {x y : Except Fault β} {x' y' : Except Fault α} (hpq : p = q) (hx : x = x'.map f)
    (hy : y = y'.map f) : (if p then x else y) = (if q then x' else y').map f :=
  ite_eq_apply (Except.map f) hpq hx hy

theorem setLastArg_withRest (cp : UInt32) (x : UInt16) : (w.withRest cp left eol).setLastArg x =
    (w.setLastArg x).map fun v => v.withRest cp left eol := by
  simp only [setLastArg]
  by_cases hlt : w.ansiCsiArgc.toNat - 1 < 4
  · rw [dif_pos hlt]
    exact dif_pos hlt
  · rw [dif_neg hlt]
    exact dif_neg hlt

theorem addArg_withRest (cp : UInt32) (flag : UInt8) (x : UInt16) :
    (w.withRest cp left eol).addArg flag x =
    (w.addArg flag x).map fun v => v.withRest cp left eol := by
  refine map_ite rfl rfl ?_
  exact setLastArg_withRest (w := { w.set flag with ansiCsiArgc := w.ansiCsiArgc + 1 }) left eol cp x

theorem parseCsi_withRest : (w.withRest w.utf8Codepoint left eol).parseCsi =
    w.parseCsi.map fun r => (r.1.withRest w.utf8Codepoint left eol, r.2) := by
  unfold parseCsi
  refine map_ite rfl ?_ (map_ite rfl (map_ite rfl ?_ ?_) (map_ite rfl (map_ite rfl rfl ?_)
    (map_ite rfl rfl (map_ite rfl ?_ rfl))))
  · by_cases hcommand : 0x40 ≤ w.utf8Codepoint ∧ w.utf8Codepoint ≤ 0x7e
    · rw [if_pos hcommand]
      exact congrArg (fun v => Except.ok (v, TtyAction.skip)) (if_pos hcommand)
    · rw [if_neg hcommand]
      exact congrArg (fun v => Except.ok (v, TtyAction.skip)) (if_neg hcommand)
  · change ((w.withRest w.utf8Codepoint left eol).addArg ansiInArg (w.utf8Codepoint.toUInt16 - 0x30)).bind _ = _
    rw [addArg_withRest]
    cases w.addArg ansiInArg (w.utf8Codepoint.toUInt16 - 0x30) <;> rfl
  · change (w.arg (w.ansiCsiArgc.toNat - 1)).bind _ = _
    cases w.arg (w.ansiCsiArgc.toNat - 1) with
    | error e => rfl
    | ok x =>
      refine map_ite rfl rfl ?_
      change ((w.withRest w.utf8Codepoint left eol).setLastArg
        ((10 * x.toUInt32).toUInt16 + (w.utf8Codepoint - 0x30).toUInt16)).bind _ = _
      rw [setLastArg_withRest]
      cases w.setLastArg ((10 * x.toUInt32).toUInt16 + (w.utf8Codepoint - 0x30).toUInt16) <;> rfl
  · rw [addArg_withRest]
    cases w.addArg 0 0 <;> rfl
  · change w.csiCommand.bind _ = _
    cases w.csiCommand <;> rfl

theorem parseEscape_withRest : (w.withRest w.utf8Codepoint left eol).parseEscape =
    (w.parseEscape.1.withRest w.utf8Codepoint left eol, w.parseEscape.2) := by
  obtain ⟨cp, _, _, state, argc, argv⟩ := w
  unfold parseEscape withRest
  dsimp only
  split
  case h_10 => split_ifs <;> rfl
  all_goals rfl

theorem parseString_withRest : (w.withRest w.utf8Codepoint left eol).parseString =
    w.parseString.withRest w.utf8Codepoint left eol := by
  unfold parseString
  dsimp only
  have hite {p q : Prop} [Decidable p] [Decidable q] {x y x' y' : TtyWr} :=
    @ite_eq_apply _ _ (fun v : TtyWr => v.withRest w.utf8Codepoint left eol) p q _ _ x y x' y'
  exact hite rfl (hite rfl (hite rfl rfl (hite rfl rfl rfl)) rfl)
    (hite rfl rfl (hite rfl rfl (hite rfl rfl rfl)))

theorem parse_withRest : (w.withRest w.utf8Codepoint left eol).parse =
    w.parse.map fun r => (r.1.withRest w.utf8Codepoint left eol, r.2) := by
  unfold parse
  refine map_ite rfl (map_ite rfl rfl (map_ite rfl rfl rfl)) (map_ite rfl ?_ (map_ite rfl
    (parseCsi_withRest left eol) (map_ite rfl ?_ rfl)))
  · exact congrArg Except.ok (parseEscape_withRest left eol)
  · exact congrArg (fun v => Except.ok (v, TtyAction.skip)) (parseString_withRest left eol)

/-! ### The bytes in the parser -/

def SameParser (w v : TtyWr) : Prop :=
  w.ansiParserState = v.ansiParserState ∧ w.ansiCsiArgc = v.ansiCsiArgc ∧
    w.ansiCsiArgv = v.ansiCsiArgv

theorem SameParser.eq_withRest (h : SameParser w v) : v.withDecoder w.utf8Codepoint 0 =
    w.withRest w.utf8Codepoint 0 v.previousEol := by
  obtain ⟨cp, left, eol, state, argc, argv⟩ := w
  obtain ⟨hstate, hargc, hargv⟩ := h
  unfold withDecoder withRest
  rw [hstate, hargc, hargv]

theorem encode_eq (w : TtyWr) : w.encode =
    ({ w with
      utf8Codepoint := shownCode w.utf8Codepoint
      previousEol := eolOf (shownCode w.utf8Codepoint) },
      lineUnits w.previousEol (shownCode w.utf8Codepoint)) := by
  have hshown : (if w.utf8Codepoint > 0xffff then
      { w with utf8Codepoint := unicodeReplacementCharacter } else w) =
      { w with utf8Codepoint := shownCode w.utf8Codepoint } := by
    unfold shownCode
    split_ifs <;> rfl
  unfold encode
  rw [hshown]
  dsimp only
  generalize shownCode w.utf8Codepoint = cp
  by_cases heol : cp = 0x0a ∨ cp = 0x0d
  · rw [if_pos heol, eolOf, if_pos heol]
    rfl
  · have hten : cp ≠ 0x0a := fun habs => heol (.inl habs)
    have hthirteen : cp ≠ 0x0d := fun habs => heol (.inr habs)
    rw [if_neg heol, eolOf, if_neg heol, lineUnits, if_neg fun habs => hten habs.1,
      if_neg fun habs => hthirteen habs.1]

theorem items_events (w : TtyWr) (action : TtyAction) :
    (action.items w).2 = lines w.previousEol (action.events w.utf8Codepoint) ∧
      (action.items w).1.previousEol =
        lastEol w.previousEol (action.events w.utf8Codepoint) ∧
      (action.items w).1.utf8BytesLeft = w.utf8BytesLeft ∧ SameParser (action.items w).1 w := by
  cases action with
  | skip => exact ⟨rfl, rfl, rfl, rfl, rfl, rfl⟩
  | flush c =>
    cases c with
    | none => exact ⟨rfl, rfl, rfl, rfl, rfl, rfl⟩
    | some c => exact ⟨(append_nil _).symm, rfl, rfl, rfl, rfl, rfl⟩
  | emit =>
    unfold TtyAction.items
    rw [encode_eq]
    exact ⟨(append_nil _).symm, rfl, rfl, rfl, rfl, rfl⟩

theorem decode_rest (w : TtyWr) (cc : Compiler) (c : UInt8) :
    SameParser (w.decode cc c).1 w ∧ (w.decode cc c).1.previousEol = w.previousEol := by
  unfold decode
  split_ifs
  · cases firstZeroBit cc c with
    | none => exact ⟨⟨rfl, rfl, rfl⟩, rfl⟩
    | some b =>
      dsimp only
      split_ifs <;> exact ⟨⟨rfl, rfl, rfl⟩, rfl⟩
  · exact ⟨⟨rfl, rfl, rfl⟩, rfl⟩
  · exact ⟨⟨rfl, rfl, rfl⟩, rfl⟩

/-- After the bytes, with the result `r`, the handle is where the parser is after the code points,
with the result `r'`; the decoder is as in `u`, and the line ends of the events were converted. -/
def Agrees (eol : UInt8) (u : TtyWr) (r : Except Fault (TtyWr × List ConsoleItem)) :
    Except Fault (TtyWr × List TtyEvent) → Prop
  | .error e => r = .error e
  | .ok (v, evs) => ∃ w, r = .ok (w, lines eol evs) ∧ SameParser w v ∧
    w.previousEol = lastEol eol evs ∧ SameDecoder w u

theorem agrees_code (h : SameParser w v) (hw : w.utf8BytesLeft = 0) :
    Agrees w.previousEol w (w.parse.map fun r => r.2.items r.1) (v.codeStep w.utf8Codepoint) := by
  have hparse : (v.withDecoder w.utf8Codepoint 0).parse =
      w.parse.map fun r => (r.1.withRest w.utf8Codepoint 0 v.previousEol, r.2) := by
    rw [h.eq_withRest, parse_withRest]
  unfold codeStep
  rw [hparse]
  cases hw' : w.parse with
  | error e => exact rfl
  | ok r =>
    obtain ⟨w', action⟩ := r
    have hkeeps : w'.utf8Codepoint = w.utf8Codepoint ∧ w'.utf8BytesLeft = w.utf8BytesLeft ∧
        w'.previousEol = w.previousEol := by
      have hsame := w.parse_withRest w.utf8BytesLeft w.previousEol
      rw [show w.withRest w.utf8Codepoint w.utf8BytesLeft w.previousEol = w from rfl, hw'] at hsame
      have hrest : w' = w'.withRest w.utf8Codepoint w.utf8BytesLeft w.previousEol :=
        congrArg Prod.fst (Except.ok.inj hsame)
      rw [hrest]
      exact ⟨rfl, rfl, rfl⟩
    obtain ⟨hcp, hleft, heol⟩ := hkeeps
    obtain ⟨hitems, heol', hleft', hparser⟩ := items_events w' action
    rw [heol, hcp] at hitems heol'
    refine ⟨(action.items w').1, ?_, hparser, heol', .of_zero (hleft'.trans (hleft.trans hw)) hw⟩
    rw [← hitems]
    rfl

theorem charStep_agrees (h : SameParser w v) (cc : Compiler) (c : UInt8) :
    ∃ r, w.charStep cc c = r.map (fun x => (x, (w.decode cc c).2)) ∧
      Agrees w.previousEol (w.decode cc c).1 r (run codeStep v (emitted (w.decode cc c).1)) := by
  obtain ⟨hparser, heol⟩ := w.decode_rest cc c
  unfold charStep emitted
  by_cases hleft : (w.decode cc c).1.utf8BytesLeft = 0
  · rw [if_neg (not_not.mpr hleft), if_pos hleft]
    refine ⟨(w.decode cc c).1.parse.map fun r => r.2.items r.1, ?_, ?_⟩
    · cases (w.decode cc c).1.parse <;> rfl
    · have hcode := agrees_code (v := v) ⟨hparser.1.trans h.1, hparser.2.1.trans h.2.1,
        hparser.2.2.trans h.2.2⟩ hleft
      rw [run_singleton, ← heol]
      exact hcode
  · rw [if_pos hleft, if_neg hleft]
    exact ⟨.ok ((w.decode cc c).1, []), rfl, _, rfl, ⟨hparser.1.trans h.1,
      hparser.2.1.trans h.2.1, hparser.2.2.trans h.2.2⟩, heol, rfl, fun _ => rfl⟩

variable {r : Except Fault (TtyWr × List ConsoleItem)}

theorem Agrees.append {eol : UInt8} {u u' : TtyWr} {cps cps' : List UInt32}
    {k : TtyWr → Except Fault (TtyWr × List ConsoleItem)} (h : Agrees eol u r (run codeStep v cps))
    (hk : ∀ w v, SameParser w v → SameDecoder w u →
      Agrees w.previousEol u' (k w) (run codeStep v cps')) :
    Agrees eol u' (r.bind fun x => (k x.1).map fun y => (y.1, x.2 ++ y.2))
      (run codeStep v (cps ++ cps')) := by
  rw [run_append]
  cases hrun : run codeStep v cps with
  | error e =>
    rw [hrun] at h
    rw [show r = .error e from h]
    exact rfl
  | ok x =>
    obtain ⟨v', evs⟩ := x
    rw [hrun] at h
    obtain ⟨w, rfl, hparser, heol, hdecoder⟩ := h
    have hnext := hk w v' hparser hdecoder
    simp only [Except.bind]
    cases hrun' : run codeStep v' cps' with
    | error e =>
      rw [hrun'] at hnext
      rw [show k w = .error e from hnext]
      exact rfl
    | ok y =>
      obtain ⟨v'', evs'⟩ := y
      rw [hrun'] at hnext
      obtain ⟨w', hw', hparser', heol', hdecoder'⟩ := hnext
      refine ⟨w', ?_, hparser', ?_, hdecoder'⟩
      · rw [hw', lines_append, ← heol]
        rfl
      · rw [heol', heol, lastEol_append]

theorem SameDecoder.trans {u : TtyWr} (h : SameDecoder w v) (h' : SameDecoder v u) :
    SameDecoder w u :=
  ⟨h.1.trans h'.1, fun hw => (h.2 hw).trans (h'.2 fun habs => hw (h.1.trans habs))⟩

theorem Agrees.congr {eol : UInt8} {u u' : TtyWr}
    {r' : Except Fault (TtyWr × List TtyEvent)} (h : Agrees eol u r r') (hu : SameDecoder u u') :
    Agrees eol u' r r' := by
  cases r' with
  | error e => exact h
  | ok x =>
    obtain ⟨w, hw, hparser, heol, hdecoder⟩ := h
    exact ⟨w, hw, hparser, heol, hdecoder.trans hu⟩

theorem byteStep_agrees (h : SameParser w v) (cc : Compiler) (c : UInt8) :
    Agrees w.previousEol (w.decodeByte cc c).1 (w.byteStep cc c)
      (run codeStep v (w.decodeByte cc c).2) := by
  have hmap : ∀ (r : Except Fault (TtyWr × List ConsoleItem)) (b : Bool),
      (r.map fun x => (x, b)).map Prod.fst = r := by
    intro r b
    cases r <;> rfl
  obtain ⟨r, hr, hfirst⟩ := charStep_agrees h cc c
  unfold byteStep decodeByte
  dsimp only
  rw [hr]
  by_cases hagain : (w.decode cc c).2 = true
  · have hsecond : ∀ w' v', SameParser w' v' → SameDecoder w' (w.decode cc c).1 →
        Agrees w'.previousEol ((w.decode cc c).1.decode cc c).1
          ((w'.charStep cc c).map Prod.fst)
          (run codeStep v' (emitted ((w.decode cc c).1.decode cc c).1)) := by
      intro w' v' hparser hdecoder
      obtain ⟨r', hr', hagrees⟩ := charStep_agrees hparser cc c
      obtain ⟨hleft, hcp, -⟩ := hdecoder.decode cc c
      rw [emitted, hleft, hcp] at hagrees
      rw [hr', hmap]
      exact hagrees.congr ⟨hleft, fun _ => hcp⟩
    rw [if_pos hagain, hagain]
    have hboth := hfirst.append hsecond
    cases r with
    | error e => exact hboth
    | ok x =>
      obtain ⟨w', os⟩ := x
      simp only [Except.map, Except.bind, if_true] at hboth ⊢
      cases hw' : w'.charStep cc c with
      | error e | ok y =>
        rw [hw'] at hboth
        exact hboth
  · rw [if_neg hagain, eq_false_of_ne_true hagain]
    cases r with
    | error e | ok x => exact hfirst

theorem byteStep_run_agrees (h : SameParser w v) (cc : Compiler) (bs : List UInt8) :
    Agrees w.previousEol (w.decoded cc bs) (run (byteStep cc) w bs)
      (run codeStep v (w.handed cc bs)) := by
  induction bs generalizing w v with
  | nil => exact ⟨w, rfl, h, rfl, rfl, fun _ => rfl⟩
  | cons c bs ih =>
    have hrest : ∀ w' v', SameParser w' v' → SameDecoder w' (w.decodeByte cc c).1 →
        Agrees w'.previousEol ((w.decodeByte cc c).1.decoded cc bs) (run (byteStep cc) w' bs)
          (run codeStep v' ((w.decodeByte cc c).1.handed cc bs)) := by
      intro w' v' hparser hdecoder
      rw [← hdecoder.handed]
      exact (ih hparser).congr (hdecoder.decoded cc bs)
    have hboth := (byteStep_agrees h cc c).append hrest
    rw [handed, run]
    cases hstep : w.byteStep cc c with
    | error e =>
      rw [hstep] at hboth
      exact hboth
    | ok x =>
      obtain ⟨w', os⟩ := x
      rw [hstep] at hboth
      simp only [Except.bind] at hboth ⊢
      cases hrun : run (byteStep cc) w' bs with
      | error e | ok y =>
        rw [hrun] at hboth
        exact hboth

theorem Sane.codeStep (hw : Sane w) (cp : UInt32) : ∃ w' evs, w.codeStep cp = .ok (w', evs) ∧
    Sane w' := by
  have hsane : Sane (w.withDecoder cp 0) := hw.congr rfl rfl
  obtain ⟨w', action, hparse, hsane'⟩ := hsane.parse
  refine ⟨w', action.events cp, ?_, hsane'⟩
  unfold TtyWr.codeStep
  rw [hparse]

end TtyWr

/-- What is seen of calls of `uv_tty_write_bufs` is what the conversion of line ends makes of what
the parser makes of the code points. -/
theorem ttyWrites_lines (cc : Compiler) (calls : List (List (List UInt8))) :
    ∃ w evs, run TtyWr.codeStep .init (TtyWr.init.handed cc calls.flatten.flatten) = .ok (w, evs) ∧
      (ttyWrites cc .init calls).map (fun r => consoleItems r.2) = .ok (lines 0 evs) := by
  obtain ⟨w, evs, hrun, -⟩ := run_ok (fun w cp hw => TtyWr.Sane.codeStep hw cp) TtyWr.sane_init
    (TtyWr.init.handed cc calls.flatten.flatten)
  have hagrees := TtyWr.byteStep_run_agrees (w := TtyWr.init) (v := TtyWr.init) ⟨rfl, rfl, rfl⟩ cc
    calls.flatten.flatten
  rw [hrun] at hagrees
  obtain ⟨w', hw', -⟩ := hagrees
  have heq := ttyWrites_eq cc .init calls
  rw [hw'] at heq
  refine ⟨w, evs, hrun, ?_⟩
  cases hcalls : ttyWrites cc .init calls with
  | error e =>
    rw [hcalls] at heq
    cases heq
  | ok r =>
    rw [hcalls] at heq
    exact congrArg Except.ok (congrArg Prod.snd (Except.ok.inj heq))

end LibuvWorks.Win
