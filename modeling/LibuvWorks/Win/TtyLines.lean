import LibuvWorks.Win.TtyParser
import Mathlib.Data.List.Induction

/-!
# The line ends of the console

The conversion remembers the last end of line, and forgets it at other text, but not at a sequence
that moves the caret.
-/
namespace LibuvWorks.Win

open Transducer List

/-- Calls that move the caret -/
def ConsoleCall.moves : ConsoleCall → Bool
  | .reset => true
  | .restoreState _ => true
  | .moveCaret .. => true
  | _ => false

def ConsoleCall.shifts : ConsoleCall → Bool
  | .moveCaret x xRelative _ _ => x ≠ 0 ∨ xRelative = false
  | c => c.moves

/-- What comes between a carriage return and where it is looked for: ends of lines, and calls that
are not in `p`. -/
def Quiet (p : ConsoleCall → Bool) : ConsoleItem → Prop
  | .inl u => u = 0x0d ∨ u = 0x0a
  | .inr c => p c = false

def AfterReturn (p : ConsoleCall → Bool) (items : List ConsoleItem) : Prop :=
  ∃ a b, items = a ++ .inl 0x0d :: b ∧ ∀ i ∈ b, Quiet p i

def printedItems (items : List ConsoleItem) : List ConsoleItem :=
  items.filter fun i => i ≠ .inl 0x0d ∧ i ≠ .inl 0x0a

/-- The printable text and the calls of events, one item for each -/
def printedEvents (evs : List TtyEvent) : List ConsoleItem :=
  evs.filterMap fun ev =>
    match ev with
    | .call c => some (.inr c)
    | .text cp => if cp = 0x0d ∨ cp = 0x0a then none else some (.inl (shownCode cp).toUInt16)

structure LinesRight (evs : List TtyEvent) : Prop where
  lf : ∀ x y, lines 0 evs = x ++ .inl 0x0a :: y → AfterReturn ConsoleCall.moves x
  printed : printedItems (lines 0 evs) = printedEvents evs
  omitted : ∀ before after, evs = before ++ .text 0x0d :: after →
    lines 0 (before ++ [.text 0x0d]) = lines 0 before →
      AfterReturn ConsoleCall.shifts (lines 0 before)

/-! ### The caret -/

/-- The last end of line, and whether the caret was moved, and to another column, after the last
carriage return was written -/
structure Caret where
  eol : UInt8
  moved : Bool
  shifted : Bool

namespace Caret

/-- At an event -/
def next (s : Caret) : TtyEvent → Caret
  | .call c => { s with moved := s.moved || c.moves, shifted := s.shifted || c.shifts }
  | .text cp =>
    if cp = 0x0a ∧ s.eol = 0x0d ∨ cp = 0x0d ∧ s.eol = 0x0a then { s with eol := eolOf cp }
    else ⟨eolOf cp, false, false⟩

def after (evs : List TtyEvent) : Caret := evs.foldl next ⟨0, false, false⟩

/-- The event does not rely on a carriage return that the caret has left. -/
def Stays (s : Caret) : TtyEvent → Prop
  | .call _ => True
  | .text cp => (cp = 0x0a → s.eol = 0x0d → s.moved = false) ∧
    (cp = 0x0d → s.eol = 0x0a → s.shifted = false)

end Caret

/-- When an end of line follows one of the other kind, with only sequences between them, then no
sequence has moved the caret since a carriage return was last written; when it is a carriage
return, not to another column. -/
def AllStay (evs : List TtyEvent) : Prop :=
  ∀ before ev after, evs = before ++ ev :: after → (Caret.after before).Stays ev

/-! ### Events -/

variable {p : ConsoleCall → Bool} {items : List ConsoleItem} {evs : List TtyEvent}

theorem afterReturn_snoc (i : ConsoleItem) : AfterReturn p (items ++ [i]) ↔
    i = .inl 0x0d ∨ Quiet p i ∧ AfterReturn p items := by
  constructor
  · rintro ⟨a, b, hab, hb⟩
    obtain rfl | ⟨b, j, rfl⟩ := eq_nil_or_concat b
    · obtain ⟨-, hlast⟩ := append_inj' hab rfl
      exact .inl (List.cons.inj hlast).1
    · rw [concat_eq_append] at hab hb
      rw [← cons_append, ← append_assoc] at hab
      obtain ⟨hinit, hlast⟩ := append_inj' hab rfl
      obtain ⟨rfl, -⟩ := List.cons.inj hlast
      refine .inr ⟨hb i (mem_append_right b mem_cons_self), a, b, hinit, fun k hk => ?_⟩
      exact hb k (mem_append_left _ hk)
  · rintro (rfl | ⟨hi, a, b, rfl, hb⟩)
    · exact ⟨items, [], rfl, by simp⟩
    · refine ⟨a, b ++ [i], by simp, ?_⟩
      intro j hj
      obtain hj | hj := mem_append.mp hj
      · exact hb j hj
      · rwa [mem_singleton.mp hj]

theorem shownCode_eq_iff (cp : UInt32) {eol : UInt32} (heol : eol = 0x0a ∨ eol = 0x0d) :
    shownCode cp = eol ↔ cp = eol := by
  unfold shownCode
  split_ifs with hbig
  · constructor
    · intro habs
      obtain rfl | rfl := heol <;> exact absurd habs (by decide)
    · rintro rfl
      obtain rfl | rfl := heol <;> exact absurd hbig (by decide)
  · exact Iff.rfl

theorem eolOf_shownCode (cp : UInt32) : eolOf (shownCode cp) = eolOf cp := by
  simp only [eolOf, shownCode_eq_iff cp (.inl rfl), shownCode_eq_iff cp (.inr rfl)]
  by_cases heol : cp = 0x0a ∨ cp = 0x0d
  · obtain rfl | rfl := heol <;> rfl
  · rw [if_neg heol, if_neg heol]

theorem toUInt16_shownCode (cp : UInt32) : ((shownCode cp).toUInt16 = 0x0d ↔ cp = 0x0d) ∧
    ((shownCode cp).toUInt16 = 0x0a ↔ cp = 0x0a) := by
  have hsmall : (shownCode cp).toNat < 65536 := by
    unfold shownCode
    split_ifs with hbig
    · decide
    · exact Nat.lt_succ_of_le (UInt32.le_iff_toNat_le.mp (UInt32.not_lt.mp hbig))
  have hunit : ∀ n : ℕ, n < 65536 →
      ((shownCode cp).toUInt16 = UInt16.ofNat n ↔ shownCode cp = UInt32.ofNat n) := by
    intro n hn
    rw [← UInt16.toNat_inj, ← UInt32.toNat_inj, UInt32.toNat_toUInt16, UInt16.toNat_ofNat',
      UInt32.toNat_ofNat']
    omega
  exact ⟨(hunit 13 (by decide)).trans (shownCode_eq_iff cp (.inr rfl)),
    (hunit 10 (by decide)).trans (shownCode_eq_iff cp (.inl rfl))⟩

inductive TextCase (s : Caret) : UInt32 → Caret → List ConsoleItem → Prop
  | lfAfterCr : s.eol = 0x0d → TextCase s 0x0a { s with eol := 0x0a } [.inl 0x0a]
  | crAfterLf : s.eol = 0x0a → TextCase s 0x0d { s with eol := 0x0d } []
  | lf : s.eol ≠ 0x0d → TextCase s 0x0a ⟨0x0a, false, false⟩ [.inl 0x0d, .inl 0x0a]
  | cr : s.eol ≠ 0x0a → TextCase s 0x0d ⟨0x0d, false, false⟩ [.inl 0x0d]
  | other {cp : UInt32} : cp ≠ 0x0a → cp ≠ 0x0d →
    TextCase s cp ⟨0, false, false⟩ [.inl (shownCode cp).toUInt16]

theorem textCase (s : Caret) (cp : UInt32) :
    TextCase s cp (s.next (.text cp)) (TtyEvent.items s.eol (.text cp)).2 := by
  have hitems : (TtyEvent.items s.eol (.text cp)).2 =
      if cp = 0x0a ∧ s.eol ≠ 0x0d then [.inl 0x0d, .inl 0x0a]
      else if cp = 0x0d ∧ s.eol = 0x0a then []
      else [.inl (shownCode cp).toUInt16] := by
    simp only [TtyEvent.items, lineUnits, shownCode_eq_iff cp (.inl rfl),
      shownCode_eq_iff cp (.inr rfl)]
    split_ifs <;> rfl
  rw [hitems]
  by_cases hten : cp = 0x0a
  · subst hten
    by_cases heol : s.eol = 0x0d
    · have hnext : s.next (.text 0x0a) = { s with eol := 0x0a } := if_pos (.inl ⟨rfl, heol⟩)
      rw [hnext, if_neg fun habs => habs.2 heol, if_neg fun habs => absurd habs.1 (by decide)]
      exact .lfAfterCr heol
    · have hnext : s.next (.text 0x0a) = ⟨0x0a, false, false⟩ := if_neg (by simp [heol])
      rw [hnext, if_pos ⟨rfl, heol⟩]
      exact .lf heol
  · rw [if_neg fun habs => hten habs.1]
    by_cases hthirteen : cp = 0x0d
    · subst hthirteen
      by_cases heol : s.eol = 0x0a
      · have hnext : s.next (.text 0x0d) = { s with eol := 0x0d } := if_pos (.inr ⟨rfl, heol⟩)
        rw [hnext, if_pos ⟨rfl, heol⟩]
        exact .crAfterLf heol
      · have hnext : s.next (.text 0x0d) = ⟨0x0d, false, false⟩ := if_neg (by simp [heol])
        rw [hnext, if_neg fun habs => heol habs.2]
        exact .cr heol
    · have hnext : s.next (.text cp) = ⟨0, false, false⟩ := by
        unfold Caret.next
        dsimp only
        rw [if_neg (by simp [hten, hthirteen]), eolOf, if_neg (by simp [hten, hthirteen])]
      rw [hnext, if_neg fun habs => hthirteen habs.1]
      exact .other hten hthirteen

theorem caret_after_snoc (evs : List TtyEvent) (ev : TtyEvent) :
    Caret.after (evs ++ [ev]) = (Caret.after evs).next ev := by
  rw [Caret.after, foldl_append]
  rfl

theorem next_eol (s : Caret) (ev : TtyEvent) : (s.next ev).eol = (ev.items s.eol).1 := by
  cases ev with
  | call c => rfl
  | text cp =>
    unfold Caret.next TtyEvent.items
    dsimp only
    rw [eolOf_shownCode]
    split_ifs <;> rfl

theorem caret_eol (evs : List TtyEvent) : (Caret.after evs).eol = lastEol 0 evs := by
  induction evs using reverseRecOn with
  | nil => rfl
  | append_singleton evs ev ih =>
    rw [lastEol_append, ← ih, caret_after_snoc, next_eol]
    rfl

theorem lines_snoc (evs : List TtyEvent) (ev : TtyEvent) :
    lines 0 (evs ++ [ev]) = lines 0 evs ++ (ev.items (Caret.after evs).eol).2 := by
  rw [lines_append, caret_eol, lines, lines, append_nil]

def CallsOnly (evs : List TtyEvent) : Prop := ∀ c, .call c ∈ evs → c.items = [.inr c]

theorem afterReturn_lf (h : AfterReturn p items) : AfterReturn p (items ++ [.inl 0x0a]) :=
  (afterReturn_snoc _).mpr (.inr ⟨.inr rfl, h⟩)

theorem afterReturn_cr : AfterReturn p (items ++ [.inl 0x0d]) := (afterReturn_snoc _).mpr (.inl rfl)

/-- While an end of line is remembered, a carriage return was written, and after it only ends of
lines and calls. -/
theorem caret_spec (hevs : CallsOnly evs) (heol : (Caret.after evs).eol ≠ 0) :
    (AfterReturn ConsoleCall.moves (lines 0 evs) ↔ (Caret.after evs).moved = false) ∧
      (AfterReturn ConsoleCall.shifts (lines 0 evs) ↔ (Caret.after evs).shifted = false) := by
  induction evs using reverseRecOn with
  | nil => exact absurd rfl heol
  | append_singleton evs ev ih =>
    have hbefore : CallsOnly evs := fun c hc => hevs c (mem_append_left _ hc)
    rw [caret_after_snoc] at heol ⊢
    rw [lines_snoc]
    cases ev with
    | call c =>
      obtain ⟨hmoved, hshifted⟩ := ih hbefore heol
      have hitems : (TtyEvent.items (Caret.after evs).eol (.call c)).2 = [.inr c] :=
        hevs c (mem_append_right _ mem_cons_self)
      rw [hitems, afterReturn_snoc, afterReturn_snoc, hmoved, hshifted]
      simp [Caret.next, Quiet, and_comm]
    | text cp =>
      have hcase := textCase (Caret.after evs) cp
      generalize (Caret.after evs).next (.text cp) = s, (TtyEvent.items _ (.text cp)).2 = os at *
      cases hcase with
      | lfAfterCr hreturn =>
        obtain ⟨hmoved, hshifted⟩ := ih hbefore (by rw [hreturn]; decide)
        rw [afterReturn_snoc, afterReturn_snoc, hmoved, hshifted]
        simp [Quiet]
      | crAfterLf hfeed =>
        rw [append_nil]
        exact ih hbefore (by rw [hfeed]; decide)
      | lf hreturn =>
        have hitems : lines 0 evs ++ [.inl 0x0d, .inl 0x0a] =
            lines 0 evs ++ [.inl 0x0d] ++ [.inl 0x0a] := by simp
        rw [hitems]
        exact ⟨iff_of_true (afterReturn_lf afterReturn_cr) rfl,
          iff_of_true (afterReturn_lf afterReturn_cr) rfl⟩
      | cr hfeed => exact ⟨iff_of_true afterReturn_cr rfl, iff_of_true afterReturn_cr rfl⟩
      | other hten hthirteen => exact absurd rfl heol

theorem printed_lines (hevs : CallsOnly evs) : printedItems (lines 0 evs) = printedEvents evs := by
  induction evs using reverseRecOn with
  | nil => rfl
  | append_singleton evs ev ih =>
    have hbefore : CallsOnly evs := fun c hc => hevs c (mem_append_left _ hc)
    rw [lines_snoc, printedItems, filter_append, printedEvents, filterMap_append]
    congr 1
    · exact ih hbefore
    cases ev with
    | call c =>
      have hitems : (TtyEvent.items (Caret.after evs).eol (.call c)).2 = [.inr c] :=
        hevs c (mem_append_right _ mem_cons_self)
      rw [hitems]
      rfl
    | text cp =>
      have hcase := textCase (Caret.after evs) cp
      generalize (Caret.after evs).next (.text cp) = s, (TtyEvent.items _ (.text cp)).2 = os at *
      cases hcase with
      | lfAfterCr hreturn | crAfterLf hfeed | lf hreturn | cr hfeed => rfl
      | other hten hthirteen =>
        obtain ⟨hcr, hlf⟩ := toUInt16_shownCode cp
        simp [hten, hthirteen, hcr, hlf]

theorem forall_append {P : List ConsoleItem → Prop} {os : List ConsoleItem}
    (hitems : ∀ x y, items = x ++ .inl 0x0a :: y → P x)
    (hos : ∀ x y, os = x ++ .inl 0x0a :: y → P (items ++ x)) :
    ∀ x y, items ++ os = x ++ .inl 0x0a :: y → P x := by
  intro x y hxy
  obtain ⟨t, rfl, hos'⟩ | ⟨t, rfl, ht⟩ := append_eq_append_iff.mp hxy
  · exact hos t y hos'
  · cases t with
    | nil =>
      have hx := hos [] y ht.symm
      rwa [append_nil, append_nil] at hx
    | cons i t =>
      obtain ⟨rfl, rfl⟩ := List.cons.inj ht
      exact hitems x t rfl

theorem singleton_eq {i : ConsoleItem} {x y : List ConsoleItem} (h : [i] = x ++ .inl 0x0a :: y) :
    i = .inl 0x0a ∧ x = [] := by
  cases x with
  | nil => exact ⟨(List.cons.inj h).1, rfl⟩
  | cons j x => exact absurd (List.cons.inj h).2 (by simp)

theorem AllStay.of_snoc {ev : TtyEvent} (h : AllStay (evs ++ [ev])) : AllStay evs := by
  rintro before ev' after rfl
  exact h before ev' (after ++ [ev]) (by simp)

theorem lf_of_stay (hevs : CallsOnly evs) (h : AllStay evs) :
    ∀ x y, lines 0 evs = x ++ .inl 0x0a :: y → AfterReturn ConsoleCall.moves x := by
  induction evs using reverseRecOn with
  | nil =>
    intro x y habs
    exact absurd habs (by simp [lines])
  | append_singleton evs ev ih =>
    have hbefore : CallsOnly evs := fun c hc => hevs c (mem_append_left _ hc)
    have hstays := h evs ev [] rfl
    rw [lines_snoc]
    apply forall_append (ih hbefore h.of_snoc)
    intro x y hxy
    cases ev with
    | call c =>
      have hitems : (TtyEvent.items (Caret.after evs).eol (.call c)).2 = [.inr c] :=
        hevs c (mem_append_right _ mem_cons_self)
      rw [hitems] at hxy
      exact absurd (singleton_eq hxy).1 Sum.inr_ne_inl
    | text cp =>
      have hcase := textCase (Caret.after evs) cp
      generalize (Caret.after evs).next (.text cp) = s, (TtyEvent.items _ (.text cp)).2 = os at *
      cases hcase with
      | lfAfterCr hreturn =>
        obtain ⟨-, rfl⟩ := singleton_eq hxy
        have hspec := caret_spec hbefore (by rw [hreturn]; decide)
        rw [append_nil]
        exact hspec.1.mpr (hstays.1 rfl hreturn)
      | crAfterLf hfeed => exact absurd hxy (by simp)
      | lf hreturn =>
        cases x with
        | nil => exact absurd (List.cons.inj hxy).1 (by decide)
        | cons i x =>
          obtain ⟨rfl, hrest⟩ := List.cons.inj hxy
          obtain ⟨-, rfl⟩ := singleton_eq hrest
          exact afterReturn_cr
      | cr hfeed => exact absurd (singleton_eq hxy).1 (by decide)
      | other hten hthirteen =>
        have hunit := Sum.inl.inj (singleton_eq hxy).1
        exact absurd ((toUInt16_shownCode cp).2.mp hunit) hten

theorem lines_cr_eq (evs : List TtyEvent) : lines 0 (evs ++ [.text 0x0d]) = lines 0 evs ↔
    (Caret.after evs).eol = 0x0a := by
  rw [lines_snoc, append_right_eq_self]
  constructor
  · intro hnil
    by_contra hfeed
    have hcr : (TtyEvent.items (Caret.after evs).eol (.text 0x0d)).2 = [.inl 0x0d] := by
      change map Sum.inl (lineUnits _ _) = _
      rw [lineUnits, if_neg fun habs => absurd habs.1 (by decide), if_neg fun habs => hfeed habs.2]
      rfl
    rw [hcr] at hnil
    exact cons_ne_nil _ _ hnil
  · intro hfeed
    rw [hfeed]
    rfl

/-- The conversion does what it should if and only if no end of line relies on a carriage return
that the caret has left. -/
theorem linesRight_iff (hevs : CallsOnly evs) : LinesRight evs ↔ AllStay evs := by
  have hpart : ∀ {pre post}, evs = pre ++ post → CallsOnly pre := by
    rintro pre post rfl c hc
    exact hevs c (mem_append_left post hc)
  constructor
  · rintro h before ev after rfl
    have hbefore := hpart rfl
    cases ev with
    | call c => trivial
    | text cp =>
      constructor
      · rintro rfl hreturn
        have hspec := caret_spec hbefore (by rw [hreturn]; decide)
        apply hspec.1.mp
        apply h.lf _ (lines (lastEol 0 (before ++ [.text 0x0a])) after)
        rw [← singleton_append, ← append_assoc, lines_append, lines_snoc, hreturn]
        simp [TtyEvent.items, lineUnits, shownCode]
      · rintro rfl hfeed
        have hspec := caret_spec hbefore (by rw [hfeed]; decide)
        exact hspec.2.mp (h.omitted before after rfl ((lines_cr_eq before).mpr hfeed))
  · intro h
    refine ⟨lf_of_stay hevs h, printed_lines hevs, ?_⟩
    intro before after hsplit homitted
    have hfeed := (lines_cr_eq before).mp homitted
    have hspec := caret_spec (hpart hsplit) (by rw [hfeed]; decide)
    exact hspec.2.mpr ((h before _ after hsplit).2 rfl hfeed)

/-! ### The calls of the parser -/

def TtyAction.Plain (action : TtyAction) : Prop :=
  ∀ c, action = .flush (some c) → c.items = [.inr c]

namespace TtyWr

variable {w w' : TtyWr} {action : TtyAction}

theorem plain_skip : TtyAction.Plain .skip := fun _ habs => nomatch habs

theorem plain_cleared (d : ℤ) (entireScreen : Bool) :
    (TtyAction.cleared d entireScreen).Plain := by
  intro c hc
  unfold TtyAction.cleared at hc
  split_ifs at hc
  · cases hc
    rfl
  · cases hc

theorem plain_shown {visible : Bool} (h : w.shown visible = .ok action) : action.Plain := by
  unfold shown at h
  split_ifs at h
  · cases harg : w.arg 0 with
    | error e =>
      rw [harg] at h
      cases h
    | ok v =>
      rw [harg] at h
      cases h
      split_ifs
      · rintro c ⟨⟩
        rfl
      · exact plain_skip
  · cases h
    exact plain_skip

theorem plain_csiCommand (hw : w.ansiCsiArgc.toNat ≤ 4) (h : w.csiCommand = .ok action) :
    action.Plain := by
  obtain ⟨a, ha⟩ := argOr_ok w 0
  obtain ⟨b, hb⟩ := argOr_ok w 1
  obtain ⟨x, hx⟩ := argIndex_ok hw 0
  obtain ⟨y, hy⟩ := argIndex_ok hw 1
  have hstyle : w.styleArgs = .ok (w.ansiCsiArgv.toList.take w.ansiCsiArgc.toNat) := if_pos hw
  unfold csiCommand at h
  simp only [ha, hb, hx, hy, hstyle, bind, Except.bind] at h
  split at h
  case h_15 => exact plain_shown h
  case h_16 => exact plain_shown h
  case h_10 | h_11 =>
    cases h
    exact plain_cleared _ _
  case h_17 =>
    cases h
    exact plain_skip
  all_goals
    cases h
    rintro c ⟨⟩
    rfl

theorem plain_parseCsi (hw : Sane w) (h : w.parseCsi = .ok (w', action)) : action.Plain := by
  have hskip : ∀ {r : Except Fault TtyWr}, r.bind (fun v => .ok (v, TtyAction.skip)) =
      .ok (w', action) → action.Plain := by
    intro r hr
    cases r with
    | error e => cases hr
    | ok v =>
      cases hr
      exact plain_skip
  unfold parseCsi at h
  dsimp only at h
  split_ifs at h
  · cases h
    exact plain_skip
  · cases h
    exact plain_skip
  · exact hskip h
  · cases harg : w.arg (w.ansiCsiArgc.toNat - 1) with
    | error e =>
      rw [harg] at h
      cases h
    | ok v =>
      simp only [harg, bind, Except.bind] at h
      split_ifs at h
      · cases h
        exact plain_skip
      · exact hskip h
  · cases h
    exact plain_skip
  · exact hskip h
  · cases h
    exact plain_skip
  · cases hcommand : w.csiCommand with
    | error e =>
      rw [hcommand] at h
      cases h
    | ok a =>
      rw [hcommand] at h
      cases h
      exact plain_csiCommand hw.argc hcommand
  · cases h
    exact plain_skip

theorem plain_parseEscape (w : TtyWr) : w.parseEscape.2.Plain := by
  unfold parseEscape
  dsimp only
  split
  case h_7 | h_8 | h_9 =>
    rintro c ⟨⟩
    rfl
  case h_10 =>
    split_ifs
    · exact plain_skip
    · exact fun _ habs => nomatch habs
  all_goals exact plain_skip

theorem plain_parse (hw : Sane w) (h : w.parse = .ok (w', action)) : action.Plain := by
  unfold parse at h
  split_ifs at h
  · cases h
    exact plain_skip
  · cases h
    exact plain_skip
  · cases h
    exact fun _ habs => nomatch habs
  · have haction : w.parseEscape.2 = action := congrArg Prod.snd (Except.ok.inj h)
    rw [← haction]
    exact plain_parseEscape w
  · exact plain_parseCsi hw h
  · cases h
    exact plain_skip

theorem callsOnly_run {cps : List UInt32} {evs : List TtyEvent} (hw : Sane w)
    (h : run codeStep w cps = .ok (w', evs)) : CallsOnly evs := by
  induction cps generalizing w evs with
  | nil =>
    cases h
    exact fun _ habs => nomatch habs
  | cons cp cps ih =>
    have hsane : Sane (w.withDecoder cp 0) := hw.congr rfl rfl
    obtain ⟨v, action, hparse, hv⟩ := hsane.parse
    have hstep : w.codeStep cp = .ok (v, action.events cp) := by
      unfold codeStep
      rw [hparse]
    rw [run, hstep] at h
    dsimp only at h
    cases hrun : run codeStep v cps with
    | error e =>
      rw [hrun] at h
      cases h
    | ok r =>
      obtain ⟨v', evs'⟩ := r
      rw [hrun] at h
      cases h
      intro c hc
      obtain hc | hc := mem_append.mp hc
      · apply plain_parse hsane hparse
        cases action with
        | skip => cases hc
        | flush call =>
          cases call with
          | none => cases hc
          | some call =>
            cases mem_singleton.mp hc
            rfl
        | emit => cases mem_singleton.mp hc
      · exact ih hv hrun c hc

end TtyWr

/-- The console's line ends are right if and only if no sequence between two ends of line of
different kinds moves the caret. -/
theorem ttyWrites_linesRight_iff (cc : Compiler) (calls : List (List (List UInt8))) :
    ∃ w evs, run TtyWr.codeStep .init (TtyWr.init.handed cc calls.flatten.flatten) = .ok (w, evs) ∧
      (ttyWrites cc .init calls).map (fun r => consoleItems r.2) = .ok (lines 0 evs) ∧
      (LinesRight evs ↔ AllStay evs) := by
  obtain ⟨w, evs, hrun, hlines⟩ := ttyWrites_lines cc calls
  exact ⟨w, evs, hrun, hlines, linesRight_iff (TtyWr.callsOnly_run TtyWr.sane_init hrun)⟩

/-- A carriage return, a move to the right, and a line feed -/
theorem not_linesRight : ∃ w evs,
    run TtyWr.codeStep .init (TtyWr.init.handed .msvc [13, 27, 91, 53, 67, 10]) = .ok (w, evs) ∧
      (ttyWrites .msvc .init [[[13, 27, 91, 53, 67, 10]]]).map (fun r => consoleItems r.2) =
        .ok [.inl 13, .inr (.moveCaret 5 true 0 true), .inl 10] ∧
      ¬LinesRight evs := by
  refine ⟨_, [.text 13, .call (.moveCaret 5 true 0 true), .text 10], rfl, rfl, ?_⟩
  intro h
  have hreturn : AfterReturn ConsoleCall.moves ([.inl 13] ++ [.inr (.moveCaret 5 true 0 true)]) :=
    h.lf _ [] rfl
  obtain habs | ⟨hquiet, -⟩ := (afterReturn_snoc _).mp hreturn
  · cases habs
  · cases hquiet

end LibuvWorks.Win
