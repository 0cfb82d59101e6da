import LibuvWorks.Handle
import Mathlib.Data.List.TakeDrop

/-!
# Console output: `win/tty.c`

`uv_tty_write_bufs` of a console without virtual terminal: a utf-8 decoder, a parser of ansi escape
sequences and the conversion of line ends, whose states are kept in the handle between calls. No
call of the console fails here. The saved position and attributes of the handle are the console's.
-/
namespace LibuvWorks.Win

/-! ## Constants -/

abbrev unicodeReplacementCharacter : UInt32 := 0xfffd

abbrev ansiNormal : UInt8 := 0x00
abbrev ansiEscapeSeen : UInt8 := 0x02
abbrev ansiCsi : UInt8 := 0x04
abbrev ansiStControl : UInt8 := 0x08
abbrev ansiIgnore : UInt8 := 0x10
abbrev ansiInArg : UInt8 := 0x20
abbrev ansiInString : UInt8 := 0x40
abbrev ansiBackslashSeen : UInt8 := 0x80

/-- `ARRAY_SIZE(utf16_buf)` -/
abbrev utf16BufSize : ℕ := 8192

/-! ## The state in the handle and the calls of the console -/

/-- `handle->tty.wr` -/
structure TtyWr where
  utf8Codepoint : UInt32
  utf8BytesLeft : UInt8
  previousEol : UInt8
  ansiParserState : UInt8
  ansiCsiArgc : UInt8
  ansiCsiArgv : Vector UInt16 4

/-- What is done with the console: `uv_tty_emit_text` and its siblings, with their arguments. The
style is that of the first `ansi_csi_argc` arguments. -/
inductive ConsoleCall where
  | emitText (text : List UInt16) : ConsoleCall
  | reset : ConsoleCall
  | saveState (saveAttributes : Bool) : ConsoleCall
  | restoreState (restoreAttributes : Bool) : ConsoleCall
  | moveCaret (x : ℤ) (xRelative : Bool) (y : ℤ) (yRelative : Bool) : ConsoleCall
  | clear (dir : ℤ) (entireScreen : Bool) : ConsoleCall
  | setStyle (argv : List UInt16) : ConsoleCall
  | setCursorVisibility (visible : Bool) : ConsoleCall
  deriving DecidableEq

/-- Which bit scan the compiler has. `__builtin_clz` is not defined at 0; `clzZero` is what it gives
there. -/
inductive Compiler where
  | msvc : Compiler
  | gcc (clzZero : UInt32) : Compiler

/-! ## The utf-8 decoder -/

/-- `first_zero_bit`, or nothing for a byte that is taken to be `0xff`. -/
def firstZeroBit (cc : Compiler) (c : UInt8) : Option UInt32 :=
  let notC := ~~~c
  match cc with
  | .msvc => if notC ≠ 0 then some (.ofNat notC.toNat.log2) else none
  | .gcc clzZero =>
    if c ≠ 0 then some (31 - if notC = 0 then clzZero else .ofNat (31 - notC.toNat.log2)) else none

/-- The byte goes through the decoder; the second component says that it is parsed again. -/
def TtyWr.decode (cc : Compiler) (w : TtyWr) (c : UInt8) : TtyWr × Bool :=
  if w.utf8BytesLeft = 0 then
    match firstZeroBit cc c with
    | some b =>
      if b = 7 then ({ w with utf8Codepoint := c.toUInt32 }, false)
      else if b ≤ 5 then
        ({ w with
          utf8Codepoint := (0xff >>> (8 - b)) &&& c.toUInt32
          utf8BytesLeft := (6 - b).toUInt8 }, false)
      else ({ w with utf8Codepoint := unicodeReplacementCharacter }, false)
    | none => ({ w with utf8Codepoint := unicodeReplacementCharacter }, false)
  else if c &&& 0xc0 = 0x80 then
    ({ w with
      utf8BytesLeft := w.utf8BytesLeft - 1
      utf8Codepoint := (w.utf8Codepoint <<< 6) ||| (c.toUInt32 &&& 0x3f) }, false)
  else
    ({ w with utf8BytesLeft := 0, utf8Codepoint := unicodeReplacementCharacter }, true)

/-! ## The parser of escape sequences -/

/-- What becomes of a code point: it is part of a sequence, it ends one (the text is flushed and the
console called, if the parameter is in range), or it is emitted. -/
inductive TtyAction where
  | skip : TtyAction
  | flush (call : Option ConsoleCall) : TtyAction
  | emit : TtyAction

def TtyAction.moved (x : ℤ) (xRelative : Bool) (y : ℤ) (yRelative : Bool) : TtyAction :=
  .flush (some (.moveCaret x xRelative y yRelative))

def TtyAction.cleared (d : ℤ) (entireScreen : Bool) : TtyAction :=
  .flush (if 0 ≤ d ∧ d ≤ 2 then some (.clear d entireScreen) else none)

namespace TtyWr

variable (w : TtyWr)

def setState (state : UInt8) : TtyWr := { w with ansiParserState := state }

/-- `ansi_parser_state & flag` -/
def has (flag : UInt8) : Bool := w.ansiParserState &&& flag ≠ 0

/-- `ansi_parser_state |= flag` -/
def set (flag : UInt8) : TtyWr := w.setState (w.ansiParserState ||| flag)

/-- `ansi_parser_state &= ~flag` -/
def unset (flag : UInt8) : TtyWr := w.setState (w.ansiParserState &&& ~~~flag)

/-- A read of `ansi_csi_argv`. -/
def arg (i : ℕ) : Except Fault UInt16 :=
  match w.ansiCsiArgv[i]? with
  | some v => .ok v
  | none => .error .crash

/-- A write to `ansi_csi_argv[ansi_csi_argc - 1]`. -/
def setLastArg (v : UInt16) : Except Fault TtyWr :=
  let i := w.ansiCsiArgc.toNat - 1
  if h : i < 4 then .ok { w with ansiCsiArgv := w.ansiCsiArgv.set i v h } else .error .crash

/-- `ansi_csi_argc ? ansi_csi_argv[0] : d` -/
def argOr (d : ℤ) : Except Fault ℤ :=
  if w.ansiCsiArgc ≠ 0 then do
    let v ← w.arg 0
    .ok v.toNat
  else .ok d

/-- `(ansi_csi_argc > i && ansi_csi_argv[i]) ? ansi_csi_argv[i] - 1 : 0` -/
def argIndex (i : ℕ) : Except Fault ℤ :=
  if i < w.ansiCsiArgc.toNat then do
    let v ← w.arg i
    .ok (if v ≠ 0 then v.toNat - 1 else 0)
  else .ok 0

/-- The arguments that `uv_tty_set_style` reads. -/
def styleArgs : Except Fault (List UInt16) :=
  if w.ansiCsiArgc.toNat ≤ 4 then .ok (w.ansiCsiArgv.toList.take w.ansiCsiArgc.toNat)
  else .error .crash

/-- The cursor is shown or hidden by a sequence whose only argument is 25. -/
def shown (visible : Bool) : Except Fault TtyAction :=
  if w.ansiCsiArgc = 1 then do
    let v ← w.arg 0
    .ok (if v = 25 then .flush (some (.setCursorVisibility visible)) else .skip)
  else .ok .skip

/-- The command byte of a control sequence. -/
def csiCommand : Except Fault TtyAction :=
  match Char.ofNat w.utf8Codepoint.toNat with
  | 'A' => do .ok (.moved 0 true (-(← w.argOr 1)) true)
  | 'B' => do .ok (.moved 0 true (← w.argOr 1) true)
  | 'C' => do .ok (.moved (← w.argOr 1) true 0 true)
  | 'D' => do .ok (.moved (-(← w.argOr 1)) true 0 true)
  | 'E' => do .ok (.moved 0 false (← w.argOr 1) true)
  | 'F' => do .ok (.moved 0 false (-(← w.argOr 1)) true)
  | 'G' => do .ok (.moved (← w.argIndex 0) false 0 true)
  | 'H' => do
    let y ← w.argIndex 0
    .ok (.moved (← w.argIndex 1) false y false)
  | 'f' => do
    let y ← w.argIndex 0
    .ok (.moved (← w.argIndex 1) false y false)
  | 'J' => do .ok (.cleared (← w.argOr 0) true)
  | 'K' => do .ok (.cleared (← w.argOr 0) false)
  | 'm' => do .ok (.flush (some (.setStyle (← w.styleArgs))))
  | 's' => .ok (.flush (some (.saveState false)))
  | 'u' => .ok (.flush (some (.restoreState false)))
  | 'l' => w.shown false
  | 'h' => w.shown true
  | _ => .ok .skip

def addArg (state : UInt8) (v : UInt16) : Except Fault TtyWr :=
  if w.ansiCsiArgc ≥ 4 then .ok (w.set ansiIgnore)
  else { w.set state with ansiCsiArgc := w.ansiCsiArgc + 1 }.setLastArg v

/-- A code point in a control sequence. -/
def parseCsi : Except Fault (TtyWr × TtyAction) :=
  let cp := w.utf8Codepoint
  if w.has ansiIgnore then
    -- stop only on a command character
    .ok (if 0x40 ≤ cp ∧ cp ≤ 0x7e then w.setState ansiNormal else w, .skip)
  else if 0x30 ≤ cp ∧ cp ≤ 0x39 then
    if w.has ansiInArg = false then do
      .ok (← w.addArg ansiInArg (cp.toUInt16 - 0x30), .skip)
    else do
      let value : UInt32 := 10 * (← w.arg (w.ansiCsiArgc.toNat - 1)).toUInt32
      if value > 0xffff then .ok (w.set ansiIgnore, .skip)
      else .ok (← w.setLastArg (value.toUInt16 + (cp - 0x30).toUInt16), .skip)
  else if cp = 0x3b then
    if w.has ansiInArg then .ok (w.unset ansiInArg, .skip)
    else do .ok (← w.addArg 0 0, .skip)
  else if cp = 0x3f ∧ w.has ansiInArg = false ∧ w.ansiCsiArgc = 0 then .ok (w, .skip)
  else if 0x40 ≤ cp ∧ cp ≤ 0x7e ∧ (w.ansiCsiArgc > 0 ∨ cp ≠ 0x5b) then do
    let action ← w.csiCommand
    .ok (w.setState ansiNormal, action)
  else .ok (w.set ansiIgnore, .skip)

/-- A code point after an escape. -/
def parseEscape : TtyWr × TtyAction :=
  let cp := w.utf8Codepoint
  match Char.ofNat cp.toNat with
  | '[' => ({ w.setState ansiCsi with ansiCsiArgc := 0 }, .skip)
  | '^' => (w.setState ansiStControl, .skip)
  | '_' => (w.setState ansiStControl, .skip)
  | 'P' => (w.setState ansiStControl, .skip)
  | ']' => (w.setState ansiStControl, .skip)
  | '\x1b' => (w, .skip)
  | 'c' => (w.setState ansiNormal, .flush (some .reset))
  | '7' => (w.setState ansiNormal, .flush (some (.saveState true)))
  | '8' => (w.setState ansiNormal, .flush (some (.restoreState true)))
  | _ =>
    if 0x40 ≤ cp ∧ cp ≤ 0x5f then (w.setState ansiNormal, .skip)
    else (w.setState ansiNormal, .emit)

/-- A code point in a control string, which is ignored. -/
def parseString : TtyWr :=
  let cp := w.utf8Codepoint
  if w.has ansiInString then
    if w.has ansiBackslashSeen = false then
      if cp = 0x22 then w.unset ansiInString
      else if cp = 0x5c then w.set ansiBackslashSeen
      else w
    else w.unset ansiBackslashSeen
  else if cp = 0x07 ∨ (cp = 0x5c ∧ w.has ansiEscapeSeen = true) then w.setState ansiNormal
  else if cp = 0x1b then w.set ansiEscapeSeen
  else if cp = 0x22 then ((w.set ansiInString).unset ansiEscapeSeen).unset ansiBackslashSeen
  else w.unset ansiEscapeSeen

/-- The code point goes through the parser; in a state it does not know the program aborts. -/
def parse : Except Fault (TtyWr × TtyAction) :=
  if w.ansiParserState = ansiNormal then
    if w.utf8Codepoint = 0x1b then .ok (w.setState ansiEscapeSeen, .skip)
    else if w.utf8Codepoint = 0x9b then .ok ({ w.setState ansiCsi with ansiCsiArgc := 0 }, .skip)
    else .ok (w, .emit)
  else if w.ansiParserState = ansiEscapeSeen then .ok w.parseEscape
  else if w.has ansiCsi then w.parseCsi
  else if w.has ansiStControl then .ok (w.parseString, .skip)
  else .error .assertion

/-- The code units for a code point, with the conversion of line ends. -/
def encode : TtyWr × List UInt16 :=
  let w : TtyWr :=
    if w.utf8Codepoint > 0xffff then { w with utf8Codepoint := unicodeReplacementCharacter } else w
  let cp := w.utf8Codepoint
  if cp = 0x0a ∨ cp = 0x0d then
    let text : List UInt16 :=
      if cp = 0x0a ∧ w.previousEol ≠ 0x0d then [0x0d, 0x0a]
      else if cp = 0x0d ∧ w.previousEol = 0x0a then []
      else [cp.toUInt16]
    ({ w with previousEol := cp.toUInt8 }, text)
  else ({ w with previousEol := 0 }, [cp.toUInt16])

end TtyWr

/-! ## `uv_tty_write_bufs` -/

/-- `utf16Buf` is the used part of `utf16_buf`, and `calls` what was done with the console. -/
structure TtyWriter where
  wr : TtyWr
  utf16Buf : List UInt16
  calls : List ConsoleCall

namespace TtyWriter

variable (t : TtyWriter)

def flushText : TtyWriter :=
  if t.utf16Buf.length > 0 then
    { t with utf16Buf := [], calls := t.calls ++ [.emitText t.utf16Buf] }
  else t

def ensureBufferSpace (wcharsNeeded : ℕ) : TtyWriter :=
  if wcharsNeeded > utf16BufSize - t.utf16Buf.length then t.flushText else t

/-- The code units are written to `utf16_buf`. -/
def put (text : List UInt16) : Except Fault TtyWriter :=
  let t := t.ensureBufferSpace text.length
  if t.utf16Buf.length + text.length ≤ utf16BufSize then
    .ok { t with utf16Buf := t.utf16Buf ++ text }
  else .error .crash

def act (w : TtyWr) : TtyAction → Except Fault TtyWriter
  | .skip => .ok { t with wr := w }
  | .flush none => .ok { t.flushText with wr := w }
  | .flush (some call) =>
    let t := t.flushText
    .ok { t with wr := w, calls := t.calls ++ [call] }
  | .emit => { t with wr := w.encode.1 }.put w.encode.2

/-- The body of the loop, and whether the byte is parsed again. -/
def parseByte (cc : Compiler) (c : UInt8) : Except Fault (TtyWriter × Bool) :=
  let (w, again) := t.wr.decode cc c
  if w.utf8BytesLeft ≠ 0 then .ok ({ t with wr := w }, again)
  else do
    let (w, action) ← w.parse
    let t ← t.act w action
    .ok (t, again)

/-- A byte that is parsed again is parsed as a start byte, and no third time. -/
def writeByte (cc : Compiler) (c : UInt8) : Except Fault TtyWriter := do
  let (t, again) ← t.parseByte cc c
  if again then do
    let (t, _) ← t.parseByte cc c
    .ok t
  else .ok t

end TtyWriter

def uvTtyWriteBufs (cc : Compiler) (w : TtyWr) (bufs : List (List UInt8)) :
    Except Fault (TtyWr × List ConsoleCall) := do
  let t ← bufs.foldlM (fun t buf => buf.foldlM (·.writeByte cc) t) (⟨w, [], []⟩ : TtyWriter)
  let t := t.flushText
  .ok (t.wr, t.calls)

/-- Another call of `uv_tty_write_bufs` on a handle. -/
def ttyWrite (cc : Compiler) (r : TtyWr × List ConsoleCall) (bufs : List (List UInt8)) :
    Except Fault (TtyWr × List ConsoleCall) := do
  let (w, more) ← uvTtyWriteBufs cc r.1 bufs
  .ok (w, r.2 ++ more)

/-- Successive calls, from the state `w` of the handle. -/
def ttyWrites (cc : Compiler) (w : TtyWr) (calls : List (List (List UInt8))) :
    Except Fault (TtyWr × List ConsoleCall) :=
  calls.foldlM (ttyWrite cc) (w, [])

end LibuvWorks.Win
