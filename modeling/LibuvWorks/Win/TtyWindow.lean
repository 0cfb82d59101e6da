import Mathlib.Algebra.Order.Ring.Int
import Mathlib.Tactic.Ring

/-!
# The virtual window of the console

What is written to a console is confined to a window of the height of the real one, whose offset in
the buffer is kept between the calls. Positions are clipped to it.
-/
namespace LibuvWorks.Win

open List

structure Coord where
  X : ℤ
  Y : ℤ

/-- `CONSOLE_SCREEN_BUFFER_INFO`: a buffer with at least one cell, a window of at least one of its
rows, and a cursor in it. All values are of type `SHORT`. -/
structure ConsoleInfo where
  dwSize : Coord
  dwCursorPosition : Coord
  wAttributes : ℕ
  windowTop : ℤ
  windowBottom : ℤ
  columns : 1 ≤ dwSize.X ∧ dwSize.X < 2 ^ 15
  rows : 1 ≤ dwSize.Y ∧ dwSize.Y < 2 ^ 15
  window : 0 ≤ windowTop ∧ windowTop ≤ windowBottom ∧ windowBottom < dwSize.Y
  column : 0 ≤ dwCursorPosition.X ∧ dwCursorPosition.X < dwSize.X
  row : 0 ≤ dwCursorPosition.Y ∧ dwCursorPosition.Y < dwSize.Y

/-- `uv_tty_virtual_offset`, `uv_tty_virtual_height` and `uv_tty_virtual_width`, and how often
`SIGWINCH` has been dispatched -/
structure VirtualWindow where
  offset : ℤ
  height : ℤ
  width : ℤ
  winches : ℕ

namespace VirtualWindow

def uvTtyUpdateVirtualWindow (w : VirtualWindow) (info : ConsoleInfo) : VirtualWindow :=
  let width := info.dwSize.X
  let height := info.windowBottom - info.windowTop + 1
  let offset :=
    if w.offset = -1 then info.dwCursorPosition.Y
    else if w.offset < info.dwCursorPosition.Y - height + 1 then
      info.dwCursorPosition.Y - height + 1
    else w.offset
  let offset := if offset + height > info.dwSize.Y then info.dwSize.Y - height else offset
  let offset := if offset < 0 then 0 else offset
  let winch := w.width ≠ -1 ∧ w.height ≠ -1 ∧ (width ≠ w.width ∨ height ≠ w.height)
  ⟨offset, height, width, if winch then w.winches + 1 else w.winches⟩

/-- A cast to `unsigned short` that is assigned to a `SHORT` -/
def toShort (x : ℤ) : ℤ := x.bmod (2 ^ 16)

/-- `uv_tty_make_real_coord`; an `int` holds the sum of a position and a 16-bit argument. -/
def uvTtyMakeRealCoord (w : VirtualWindow) (info : ConsoleInfo) (x : ℤ) (xRelative : Bool) (y : ℤ)
    (yRelative : Bool) : VirtualWindow × Coord :=
  let w := w.uvTtyUpdateVirtualWindow info
  let y := if yRelative then info.dwCursorPosition.Y + y else w.offset + y
  let y :=
    if y < w.offset then w.offset
    else if y ≥ w.offset + w.height then w.offset + w.height - 1
    else y
  let x := if xRelative then info.dwCursorPosition.X + x else x
  let x := if x < 0 then 0 else if x ≥ w.width then w.width - 1 else x
  (w, ⟨toShort x, toShort y⟩)

/-- A call of `FillConsoleOutputCharacterW` or of `FillConsoleOutputAttribute` -/
inductive Fill where
  | characters (count : ℕ) (start : Coord) : Fill
  | attributes (attributes : ℕ) (count : ℕ) (start : Coord) : Fill

/-- What the system answers in one round of `uv_tty_clear`: the state of the console, and how many
cells it writes in each call, or an error. -/
structure ClearRound where
  info : Except ℕ ConsoleInfo
  characters : Except ℕ ℕ
  attributes : Except ℕ ℕ

/-- The window, the calls and the error that `uv_tty_clear` leaves, and what it returns; it has not
returned where that is `none`. -/
structure Cleared where
  window : VirtualWindow
  fills : List Fill
  error : ℕ
  result : Option ℤ

def errorInvalidParameter : ℕ := 87

/-- The region that a round of `uv_tty_clear` fills: where it starts, and how many cells it has, as
a `DWORD` -/
def clearRegion (w : VirtualWindow) (info : ConsoleInfo) (dir : ℤ) (entireScreen : Bool) :
    VirtualWindow × ℕ × Coord :=
  let x1 : ℤ := 0
  let x1r := dir = 0
  let x2 : ℤ := if dir = 1 then 0 else 0xffff
  let x2r := dir = 1
  let y1 : ℤ := if !entireScreen then 0 else x1
  let y1r := !entireScreen || x1r
  let y2 := if !entireScreen then 0 else x2
  let y2r := !entireScreen || x2r
  let (w, first) := w.uvTtyMakeRealCoord info x1 x1r y1 y1r
  let (w, last) := w.uvTtyMakeRealCoord info x2 x2r y2 y2r
  let count := (last.Y * info.dwSize.X + last.X) - (first.Y * info.dwSize.X + first.X) + 1
  (w, (count % 2 ^ 32).toNat, first)

/-- `uv_tty_clear` from its `retry` on, with the answers to its rounds -/
def clearRounds (dir : ℤ) (entireScreen : Bool) : VirtualWindow → List ClearRound → Cleared
  | w, [] => ⟨w, [], 0, none⟩
  | w, a :: rounds =>
    match a.info with
    | .error error => ⟨w, [], error, some (-1)⟩
    | .ok info =>
      let (w, count, start) := w.clearRegion info dir entireScreen
      let failed (fills : List Fill) (error : ℕ) : Cleared :=
        if error = errorInvalidParameter then
          let r := clearRounds dir entireScreen w rounds
          { r with fills := fills ++ r.fills }
        else ⟨w, fills, error, some (-1)⟩
      match a.characters with
      | .error error => failed [.characters count start] error
      | .ok written =>
        let fills := [.characters count start, .attributes info.wAttributes written start]
        match a.attributes with
        | .error error => failed fills error
        | .ok _ => ⟨w, fills, 0, some 0⟩

def uvTtyClear (w : VirtualWindow) (dir : ℤ) (entireScreen : Bool) (error : ℕ)
    (rounds : List ClearRound) : Cleared :=
  if error ≠ 0 then ⟨w, [], error, some (-1)⟩ else clearRounds dir entireScreen w rounds

/-! ### The window in the buffer -/

/-- The window lies in the buffer and has the size of the console's window. -/
structure Inside (w : VirtualWindow) (info : ConsoleInfo) : Prop where
  offset : 0 ≤ w.offset
  bottom : w.offset + w.height ≤ info.dwSize.Y
  height : w.height = info.windowBottom - info.windowTop + 1
  width : w.width = info.dwSize.X

variable {w w' : VirtualWindow} {info : ConsoleInfo} {x y : ℤ} {xRelative yRelative : Bool}

theorem update_inside (w : VirtualWindow) (info : ConsoleInfo) :
    Inside (w.uvTtyUpdateVirtualWindow info) info := by
  have hwindow := info.window
  refine ⟨?_, ?_, rfl, rfl⟩
  · unfold uvTtyUpdateVirtualWindow
    dsimp only
    split_ifs <;> omega
  · unfold uvTtyUpdateVirtualWindow
    dsimp only
    split_ifs <;> omega

theorem cursor_le (w : VirtualWindow) (info : ConsoleInfo) :
    info.dwCursorPosition.Y ≤ (w.uvTtyUpdateVirtualWindow info).offset +
      (w.uvTtyUpdateVirtualWindow info).height - 1 := by
  have hwindow := info.window
  have hrow := info.row
  unfold uvTtyUpdateVirtualWindow
  dsimp only
  split_ifs <;> omega

theorem update_of_inside (h : Inside w info)
    (hcursor : info.dwCursorPosition.Y ≤ w.offset + w.height - 1) :
    w.uvTtyUpdateVirtualWindow info = w := by
  obtain ⟨hoffset, hbottom, hheight, hwidth⟩ := h
  unfold uvTtyUpdateVirtualWindow
  dsimp only
  rw [← hheight, ← hwidth, if_neg (by omega : ¬w.offset = -1),
    if_neg (by omega : ¬w.offset < info.dwCursorPosition.Y - w.height + 1),
    if_neg (by omega : ¬w.offset + w.height > info.dwSize.Y),
    if_neg (by omega : ¬w.offset < 0), if_neg (by simp)]

theorem update_update (w : VirtualWindow) (info : ConsoleInfo) :
    (w.uvTtyUpdateVirtualWindow info).uvTtyUpdateVirtualWindow info =
      w.uvTtyUpdateVirtualWindow info :=
  update_of_inside (update_inside w info) (cursor_le w info)

/-! ### Positions -/

def clipRow (w : VirtualWindow) (y : ℤ) : ℤ := max w.offset (min y (w.offset + w.height - 1))

def clipColumn (w : VirtualWindow) (x : ℤ) : ℤ := max 0 (min x (w.width - 1))

theorem toShort_eq (h : 0 ≤ x) (hlt : x < 2 ^ 15) : toShort x = x :=
  Int.bmod_eq_of_le (by omega) (by omega)

theorem makeRealCoord_eq (w : VirtualWindow) (info : ConsoleInfo) (x : ℤ) (xRelative : Bool) (y : ℤ)
    (yRelative : Bool) :
    w.uvTtyMakeRealCoord info x xRelative y yRelative =
      (w.uvTtyUpdateVirtualWindow info,
        ⟨(w.uvTtyUpdateVirtualWindow info).clipColumn
            (if xRelative then info.dwCursorPosition.X + x else x),
          (w.uvTtyUpdateVirtualWindow info).clipRow
            (if yRelative then info.dwCursorPosition.Y + y
              else (w.uvTtyUpdateVirtualWindow info).offset + y)⟩) := by
  obtain ⟨hoffset, hbottom, hheight, hwidth⟩ := update_inside w info
  have hwindow := info.window
  have hcolumns := info.columns
  have hrows := info.rows
  unfold uvTtyMakeRealCoord
  dsimp only
  generalize w.uvTtyUpdateVirtualWindow info = v at *
  refine Prod.ext rfl ?_
  dsimp only
  rw [Coord.mk.injEq]
  constructor
  · generalize (if xRelative = true then info.dwCursorPosition.X + x else x) = z
    have hclip : (if z < 0 then 0 else if z ≥ v.width then v.width - 1 else z) = v.clipColumn z := by
      unfold clipColumn
      split_ifs <;> omega
    rw [hclip]
    apply toShort_eq <;> unfold clipColumn <;> omega
  · generalize (if yRelative = true then info.dwCursorPosition.Y + y else v.offset + y) = z
    have hclip : (if z < v.offset then v.offset
        else if z ≥ v.offset + v.height then v.offset + v.height - 1 else z) = v.clipRow z := by
      unfold clipRow
      split_ifs <;> omega
    rw [hclip]
    apply toShort_eq <;> unfold clipRow <;> omega

/-- A position is in the columns of the buffer and in the virtual window. -/
structure InWindow (w : VirtualWindow) (info : ConsoleInfo) (pos : Coord) : Prop where
  column : 0 ≤ pos.X ∧ pos.X < info.dwSize.X
  row : w.offset ≤ pos.Y ∧ pos.Y < w.offset + w.height

theorem inWindow_clip (h : Inside w info) (x y : ℤ) :
    InWindow w info ⟨w.clipColumn x, w.clipRow y⟩ := by
  obtain ⟨-, -, hheight, hwidth⟩ := h
  have hwindow := info.window
  have hcolumns := info.columns
  constructor
  · dsimp only [clipColumn]
    omega
  · dsimp only [clipRow]
    omega

/-! ### What is cleared -/

def cell (info : ConsoleInfo) (pos : Coord) : ℤ := pos.Y * info.dwSize.X + pos.X

/-- A region of at least one cell in the window, that starts at the cursor or at the first column,
of the cursor's row or of the window, and ends at the cursor or at the last column. -/
structure FillRight (w : VirtualWindow) (info : ConsoleInfo) (dir : ℤ) (entireScreen : Bool)
    (count : ℕ) (start : Coord) : Prop where
  first : start = ⟨if dir = 0 then info.dwCursorPosition.X else 0,
    if entireScreen ∧ dir ≠ 0 then w.offset else w.clipRow info.dwCursorPosition.Y⟩
  inWindow : InWindow w info start
  cells : 1 ≤ count
  last : ∃ last, InWindow w info last ∧ cell info last = cell info start + count - 1 ∧
    last = ⟨if dir = 1 then info.dwCursorPosition.X else w.width - 1,
      if entireScreen ∧ dir ≠ 1 then w.offset + w.height - 1
        else w.clipRow info.dwCursorPosition.Y⟩

theorem count_cells (h : Inside w info) {first last : Coord} (hfirst : InWindow w info first)
    (hlast : InWindow w info last) (hX : first.X ≤ last.X) (hY : first.Y ≤ last.Y) :
    1 ≤ ((cell info last - cell info first + 1) % 2 ^ 32).toNat ∧
      cell info last = cell info first +
        ((cell info last - cell info first + 1) % 2 ^ 32).toNat - 1 := by
  obtain ⟨-, hcolumn⟩ := hlast.column
  obtain ⟨hzero, -⟩ := hfirst.column
  have hcolumns := info.columns
  have hrows := info.rows
  have hle : last.Y - first.Y < 2 ^ 15 := by
    have := hlast.row
    have := hfirst.row
    have := h.offset
    have := h.bottom
    omega
  have hdiff : cell info last - cell info first =
      (last.Y - first.Y) * info.dwSize.X + (last.X - first.X) := by
    unfold cell
    ring
  have hlow : 0 ≤ (last.Y - first.Y) * info.dwSize.X :=
    mul_nonneg (by omega) (by omega)
  have hhigh : (last.Y - first.Y) * info.dwSize.X ≤ 2 ^ 15 * 2 ^ 15 :=
    mul_le_mul (by omega) (by omega) (by omega) (by omega)
  have hmod : (cell info last - cell info first + 1) % 2 ^ 32 =
      cell info last - cell info first + 1 := Int.emod_eq_of_lt (by omega) (by omega)
  rw [hmod]
  omega

theorem clipColumn_of_mem (hx : 0 ≤ x) (hlt : x < w.width) : w.clipColumn x = x := by
  unfold clipColumn
  omega

theorem clipColumn_last (h : Inside w info) : w.clipColumn 0xffff = w.width - 1 := by
  have := h.width
  have := info.columns
  unfold clipColumn
  omega

theorem clipRow_first (h : Inside w info) : w.clipRow w.offset = w.offset := by
  have := h.height
  have := info.window
  unfold clipRow
  omega

theorem clipRow_last (h : Inside w info) :
    w.clipRow (w.offset + 0xffff) = w.offset + w.height - 1 := by
  have := h.offset
  have := h.bottom
  have := h.height
  have := info.window
  have := info.rows
  unfold clipRow
  omega

theorem clearRegion_right (w : VirtualWindow) (info : ConsoleInfo) (dir : ℤ) (entireScreen : Bool) :
    (w.clearRegion info dir entireScreen).1 = w.uvTtyUpdateVirtualWindow info ∧
      FillRight (w.uvTtyUpdateVirtualWindow info) info dir entireScreen
        (w.clearRegion info dir entireScreen).2.1 (w.clearRegion info dir entireScreen).2.2 := by
  have hinside := update_inside w info
  unfold clearRegion
  simp only [makeRealCoord_eq, update_update, true_and]
  generalize w.uvTtyUpdateVirtualWindow info = v at *
  have hcursor : v.clipColumn info.dwCursorPosition.X = info.dwCursorPosition.X :=
    clipColumn_of_mem info.column.1 (hinside.width ▸ info.column.2)
  have hcolumn : v.clipColumn 0 = 0 :=
    clipColumn_of_mem le_rfl (by have := hinside.width; have := info.columns; omega)
  have hfirst : (⟨v.clipColumn (if decide (dir = 0) = true then info.dwCursorPosition.X + 0 else 0),
      v.clipRow (if (!entireScreen || decide (dir = 0)) = true then
        info.dwCursorPosition.Y + (if (!entireScreen) = true then 0 else 0)
        else v.offset + if (!entireScreen) = true then 0 else 0)⟩ : Coord) =
      ⟨if dir = 0 then info.dwCursorPosition.X else 0,
        if entireScreen ∧ dir ≠ 0 then v.offset else v.clipRow info.dwCursorPosition.Y⟩ := by
    by_cases hdir : dir = 0 <;> cases entireScreen <;>
      simp [hdir, hcursor, hcolumn, clipRow_first hinside]
  have hlast : (⟨v.clipColumn (if decide (dir = 1) = true then
        info.dwCursorPosition.X + (if dir = 1 then 0 else 65535) else if dir = 1 then 0 else 65535),
      v.clipRow (if (!entireScreen || decide (dir = 1)) = true then
        info.dwCursorPosition.Y + (if (!entireScreen) = true then 0 else if dir = 1 then 0 else 65535)
        else v.offset + if (!entireScreen) = true then 0 else if dir = 1 then 0 else 65535)⟩ :
      Coord) =
      ⟨if dir = 1 then info.dwCursorPosition.X else v.width - 1,
        if entireScreen ∧ dir ≠ 1 then v.offset + v.height - 1
          else v.clipRow info.dwCursorPosition.Y⟩ := by
    by_cases hdir : dir = 1 <;> cases entireScreen <;>
      simp [hdir, hcursor, clipColumn_last hinside, clipRow_last hinside]
  have hin := inWindow_clip hinside
  have hrow := (hin 0 info.dwCursorPosition.Y).row
  have hX : (if dir = 0 then info.dwCursorPosition.X else 0) ≤
      if dir = 1 then info.dwCursorPosition.X else v.width - 1 := by
    have := info.column
    have := hinside.width
    split_ifs <;> omega
  have hY : (if entireScreen ∧ dir ≠ 0 then v.offset else v.clipRow info.dwCursorPosition.Y) ≤
      if entireScreen ∧ dir ≠ 1 then v.offset + v.height - 1
        else v.clipRow info.dwCursorPosition.Y := by
    dsimp only at hrow
    split_ifs <;> omega
  obtain ⟨hcells, hcell⟩ := count_cells hinside (hin _ _) (hin _ _)
    ((congrArg Coord.X hfirst).trans_le (hX.trans (congrArg Coord.X hlast).ge))
    ((congrArg Coord.Y hfirst).trans_le (hY.trans (congrArg Coord.Y hlast).ge))
  exact ⟨hfirst, hin _ _, hcells, _, hin _ _, hcell, hlast⟩

/-- What the calls of a run of `uv_tty_clear` fill, each in the window of its round -/
theorem clearRounds_right (dir : ℤ) (entireScreen : Bool) (rounds : List ClearRound) :
    ∀ w, ∀ count start, .characters count start ∈ (clearRounds dir entireScreen w rounds).fills →
      ∃ a ∈ rounds, ∃ v info, a.info = .ok info ∧ Inside v info ∧
        FillRight v info dir entireScreen count start := by
  induction rounds with
  | nil => exact fun _ _ _ hmem => absurd hmem not_mem_nil
  | cons a rounds ih =>
    intro w count start hmem
    unfold clearRounds at hmem
    cases hinfo : a.info with
    | error error =>
      rw [hinfo] at hmem
      exact absurd hmem not_mem_nil
    | ok info =>
      obtain ⟨-, hright⟩ := clearRegion_right w info dir entireScreen
      have hinside := update_inside w info
      have hlater : ∀ v, .characters count start ∈ (clearRounds dir entireScreen v rounds).fills →
          ∃ b ∈ a :: rounds, ∃ v info, b.info = .ok info ∧ Inside v info ∧
            FillRight v info dir entireScreen count start := by
        intro v hv
        obtain ⟨b, hb, hrest⟩ := ih v count start hv
        exact ⟨b, .tail a hb, hrest⟩
      rw [hinfo] at hmem
      dsimp only at hmem
      generalize w.clearRegion info dir entireScreen = region at hmem hright
      obtain ⟨v, n, pos⟩ := region
      have hnow : Fill.characters count start = .characters n pos →
          ∃ b ∈ a :: rounds, ∃ v info, b.info = .ok info ∧ Inside v info ∧
            FillRight v info dir entireScreen count start := by
        intro heq
        cases heq
        exact ⟨a, .head _, _, info, hinfo, hinside, hright⟩
      cases hchars : a.characters with
      | error error =>
        rw [hchars] at hmem
        dsimp only at hmem
        split_ifs at hmem
        · obtain heq | hmem := mem_cons.mp hmem
          · exact hnow heq
          · exact hlater v hmem
        · exact hnow (mem_singleton.mp hmem)
      | ok written =>
        rw [hchars] at hmem
        cases hattrs : a.attributes with
        | error error =>
          rw [hattrs] at hmem
          dsimp only at hmem
          split_ifs at hmem
          · obtain heq | hmem := mem_cons.mp hmem
            · exact hnow heq
            · obtain heq | hmem := mem_cons.mp hmem
              · cases heq
              · exact hlater v hmem
          · obtain heq | hmem := mem_cons.mp hmem
            · exact hnow heq
            · cases mem_singleton.mp hmem
        | ok _ =>
          rw [hattrs] at hmem
          obtain heq | hmem := mem_cons.mp hmem
          · exact hnow heq
          · cases mem_singleton.mp hmem

/-- Positions are in the buffer's columns and in the window, the window is in the buffer, a call
with the same state changes nothing more, and what is cleared is a region of the window. -/
structure WindowRight (w : VirtualWindow) : Prop where
  coord : ∀ info x xRelative y yRelative,
    InWindow (w.uvTtyMakeRealCoord info x xRelative y yRelative).1 info
      (w.uvTtyMakeRealCoord info x xRelative y yRelative).2
  inside : ∀ info x xRelative y yRelative,
    Inside (w.uvTtyMakeRealCoord info x xRelative y yRelative).1 info
  again : ∀ info x xRelative y yRelative,
    (w.uvTtyMakeRealCoord info x xRelative y yRelative).1.uvTtyMakeRealCoord info x xRelative y
      yRelative = w.uvTtyMakeRealCoord info x xRelative y yRelative
  clear : ∀ dir entireScreen error rounds count start,
    .characters count start ∈ (w.uvTtyClear dir entireScreen error rounds).fills →
      ∃ a ∈ rounds, ∃ v info, a.info = .ok info ∧ Inside v info ∧
        FillRight v info dir entireScreen count start

/-- Whatever the calls before have left -/
theorem window_right (w : VirtualWindow) : WindowRight w where
  coord info x xRelative y yRelative := by
    rw [makeRealCoord_eq]
    exact inWindow_clip (update_inside w info) _ _
  inside info x xRelative y yRelative := by
    rw [makeRealCoord_eq]
    exact update_inside w info
  again info x xRelative y yRelative := by
    rw [makeRealCoord_eq w, makeRealCoord_eq, update_update]
  clear dir entireScreen error rounds count start hmem := by
    unfold uvTtyClear at hmem
    split_ifs at hmem
    · exact absurd hmem List.not_mem_nil
    · exact clearRounds_right dir entireScreen rounds w count start hmem

end VirtualWindow

end LibuvWorks.Win
