import LibuvWorks.Win.ProgramEnv

/-!
# The command line of a child process

`quote_cmd_arg` and `make_program_args` of `win/process.c`, and the rules by which the C runtime of
the child splits what they write. A string is without its NUL.
-/
namespace LibuvWorks.Win

open List
open List (append_assoc length_append length_cons length_nil mem_append mem_cons mem_cons_self)

def blank : UInt16 := 32

def tab : UInt16 := 9

def quote : UInt16 := 34

def backslash : UInt16 := 92

/-- `wcspbrk(s, set) != NULL` -/
def wcspbrk (s set : WString) : Bool := s.any fun c => set.contains c

/-- The loop of `quote_cmd_arg`, from the end of the argument: what it writes. -/
def quoteLoop : (quoteHit : Bool) → WString → WString
  | _, [] => []
  | quoteHit, c :: source =>
    if quoteHit = true ∧ c = backslash then c :: backslash :: quoteLoop true source
    else if c = quote then c :: backslash :: quoteLoop true source
    else c :: quoteLoop false source

def quoteCmdArg (source : WString) : WString :=
  if source.length = 0 then [quote, quote]
  else if wcspbrk source [blank, tab, quote] = false then source
  else if wcspbrk source [quote, backslash] = false then quote :: source ++ [quote]
  else quote :: (quoteLoop true source.reverse).reverse ++ [quote]

/-- The command line with its NUL, and how many characters were allocated for it and for an argument
while it is converted. -/
structure ProgramArgs where
  dst : WString
  dstLen : ℕ
  tempBufferLen : ℕ

variable (toWide : List UInt8 → Except ℕ WString)

/-- Counts the required size. -/
def countArgs : (dstLen tempBufferLen argCount : ℕ) → List (List UInt8) → Except ℕ (ℕ × ℕ × ℕ)
  | dstLen, tempBufferLen, argCount, [] => .ok (dstLen, tempBufferLen, argCount)
  | dstLen, tempBufferLen, argCount, arg :: args => do
    let w ← toWide arg
    let argLen := w.length + 1
    countArgs (dstLen + argLen) (max tempBufferLen argLen) (argCount + 1) args

/-- Why there is no command line. The last two are the ways in which the code itself could go wrong:
`arg_count * 2` is no `int`, or `temp_buffer` is quoted without holding the argument. -/
inductive ArgsError where
  | system (code : ℕ)
  | outOfMemory
  | overflow
  | stale

/-- `MultiByteToWideChar` into a buffer that it takes to have room for so many characters; with none
it counts them and leaves the buffer as it is. -/
def multiByteToWideChar (temp : Option WString) (arg : List UInt8) (room : ℤ) :
    Except ArgsError WString :=
  match toWide arg with
  | .error code => .error (.system code)
  | .ok w =>
    if w.length < room then .ok w
    else if room = 0 then if temp = some w then .ok w else .error .stale
    else .error (.system (if room < 0 then 87 else 122))

/-- The arguments that are left, after what has been written; `temp` is what `temp_buffer` holds. -/
def writeArgs (verbatim : Bool) (dstLen : ℕ) :
    (temp : Option WString) → WString → List (List UInt8) → Except ArgsError WString
  | _, dst, [] => .ok dst
  | temp, dst, arg :: args =>
    match multiByteToWideChar toWide temp arg (((dstLen : ℤ) - dst.length).bmod (2 ^ 32)) with
    | .error err => .error err
    | .ok w =>
      let dst := dst ++ if verbatim then w else quoteCmdArg w
      writeArgs verbatim dstLen (some w) (dst ++ [if args = [] then 0 else blank]) args

/-- The two allocations succeed or not. -/
def makeProgramArgs (args : List (List UInt8)) (verbatim dstAllocated tempAllocated : Bool) :
    Except ArgsError ProgramArgs :=
  match countArgs toWide 0 0 0 args with
  | .error code => .error (.system code)
  | .ok (dstLen, tempBufferLen, argCount) =>
    if 2 ^ 31 ≤ argCount * 2 then .error .overflow
    else if (dstAllocated && tempAllocated) = false then .error .outOfMemory
    else
      let dstLen := dstLen * 2 + argCount * 2
      match writeArgs toWide verbatim dstLen none [] args with
      | .error err => .error err
      | .ok dst => .ok ⟨dst, dstLen, tempBufferLen⟩

/-! ## The rules of the C runtime -/

/-- Where the runtime is: the arguments so far, the one that it reads, the backslashes just read,
which it may have to halve, and whether it is between quotes. -/
structure ArgSplit where
  done : List WString
  arg : Option WString
  slashes : ℕ
  quoted : Bool

namespace ArgSplit

def text (s : ArgSplit) : WString := s.arg.getD [] ++ List.replicate s.slashes backslash

/-- Before a quote, two backslashes are one, and one that is left over makes the quote a
character of the argument. -/
def char (s : ArgSplit) (c : UInt16) : ArgSplit :=
  if c = backslash then { s with arg := some (s.arg.getD []), slashes := s.slashes + 1 }
  else if c = quote then
    let arg := s.arg.getD [] ++ List.replicate (s.slashes / 2) backslash
    if s.slashes % 2 = 0 then { s with arg := some arg, slashes := 0, quoted := !s.quoted }
    else { s with arg := some (arg ++ [quote]), slashes := 0 }
  else if s.quoted = false ∧ (c = blank ∨ c = tab) then
    { s with done := s.done ++ (s.arg.map fun _ => s.text).toList, arg := none, slashes := 0 }
  else { s with arg := some (s.text ++ [c]), slashes := 0 }

def split (s : ArgSplit) (line : WString) : ArgSplit := line.foldl char s

end ArgSplit

def splitCmdLine (line : WString) : List WString :=
  let s := ArgSplit.split ⟨[], none, 0, false⟩ line
  s.done ++ (s.arg.map fun _ => s.text).toList

/-! ## One argument -/

variable {s source w : WString} {done : List WString} {a : WString} {k : ℕ} {quoted hit : Bool}
  {c : UInt16}

def nextHit (hit : Bool) (c : UInt16) : Bool := if c = backslash then hit else c = quote

/-- The loop of `quote_cmd_arg` has `quote_hit` set after the characters of this end. -/
def hits (source : WString) : Bool := source.reverse.foldl nextHit true

def escaped (hit : Bool) (c : UInt16) : WString :=
  if hit = true ∧ c = backslash ∨ c = quote then [backslash, c] else [c]

theorem wcspbrk_eq_false {set : WString} (h : wcspbrk source set = false) (hc : c ∈ source) :
    c ∉ set := by
  intro hset
  have hfound : wcspbrk source set = true := by
    simpa only [wcspbrk, any_eq_true, contains_iff_mem] using ⟨c, hc, hset⟩
  cases h.symm.trans hfound

theorem quoteLoop_cons : quoteLoop hit (c :: source) =
    (escaped hit c).reverse ++ quoteLoop (nextHit hit c) source := by
  rw [quoteLoop, escaped, nextHit]
  by_cases hslash : c = backslash
  · subst hslash
    cases hit <;> rfl
  · by_cases hquote : c = quote
    · subst hquote
      simp [hslash]
    · simp [hslash, hquote]

theorem quoteLoop_append : quoteLoop hit (w ++ [c]) =
    quoteLoop hit w ++ (escaped (w.foldl nextHit hit) c).reverse := by
  induction w generalizing hit with
  | nil => simp [quoteLoop_cons, quoteLoop]
  | cons b w ih => simp [quoteLoop_cons, ih]

/-- Read from the front, each character is escaped as what follows it asks. -/
theorem reverse_quoteLoop_cons : (quoteLoop true (c :: source).reverse).reverse =
    escaped (hits source) c ++ (quoteLoop true source.reverse).reverse := by
  rw [reverse_cons, quoteLoop_append, reverse_append, reverse_reverse, hits]

theorem length_quoteLoop (hit : Bool) (w : WString) : (quoteLoop hit w).length ≤ 2 * w.length := by
  induction w generalizing hit with
  | nil => exact Nat.zero_le _
  | cons c w ih =>
    have hle := ih (nextHit hit c)
    have hone : (escaped hit c).length ≤ 2 := by
      rw [escaped]
      split <;> simp
    rw [quoteLoop_cons, length_append, length_reverse, length_cons]
    omega

theorem length_quoteCmdArg (source : WString) :
    (quoteCmdArg source).length ≤ 2 * source.length + 2 := by
  have hloop := length_quoteLoop true source.reverse
  rw [length_reverse] at hloop
  unfold quoteCmdArg
  split_ifs
  · exact Nat.le_add_left 2 _
  · omega
  · simp only [length_append, length_cons, length_nil]
    omega
  · simp only [length_append, length_cons, length_nil, length_reverse]
    omega

theorem not_mem_quoteCmdArg (h : 0 ∉ source) : 0 ∉ quoteCmdArg source := by
  have hloop : ∀ hit w, 0 ∉ w → (0 : UInt16) ∉ quoteLoop hit w := by
    intro hit w
    induction w generalizing hit with
    | nil => exact fun _ => not_mem_nil
    | cons c w ih =>
      intro hw
      rw [mem_cons, not_or] at hw
      rw [quoteLoop_cons, mem_append, not_or, mem_reverse, escaped]
      refine ⟨?_, ih _ hw.2⟩
      split <;> simp [hw.1, backslash]
  have hlast := hloop true source.reverse (by rwa [mem_reverse])
  unfold quoteCmdArg
  split_ifs <;> simp [h, hlast, quote]

theorem quoteLoop_eq_self (h : ∀ c ∈ w, c ∉ [quote, backslash]) : quoteLoop hit w = w := by
  induction w generalizing hit with
  | nil => rfl
  | cons c w ih =>
    obtain ⟨hc, hw⟩ := forall_mem_cons.mp h
    rw [mem_cons, mem_singleton, not_or] at hc
    rw [quoteLoop, if_neg (fun habs => hc.2 habs.2), if_neg hc.1, ih hw]

namespace ArgSplit

theorem split_cons {s : ArgSplit} : s.split (c :: w) = (s.char c).split w := rfl

theorem split_append {s : ArgSplit} {v : WString} : s.split (w ++ v) = (s.split w).split v :=
  foldl_append

/-- Characters that are nothing special where they stand are characters of the argument. -/
theorem split_plain (done : List WString)
    (h : ∀ c ∈ w, c ≠ quote ∧ (quoted = false → c ≠ blank ∧ c ≠ tab)) :
    ∃ b j, split ⟨done, some a, k, quoted⟩ w = ⟨done, some b, j, quoted⟩ ∧
      b ++ List.replicate j backslash = a ++ List.replicate k backslash ++ w := by
  induction w generalizing a k with
  | nil => exact ⟨a, k, rfl, by simp⟩
  | cons c w ih =>
    obtain ⟨hc, hw⟩ := forall_mem_cons.mp h
    rw [split_cons, char]
    by_cases hslash : c = backslash
    · subst hslash
      obtain ⟨b, j, hsplit, htext⟩ := ih hw (a := a) (k := k + 1)
      refine ⟨b, j, by simpa using hsplit, ?_⟩
      rw [htext, replicate_succ', append_assoc, append_assoc, append_assoc]
      rfl
    · obtain ⟨b, j, hsplit, htext⟩ := ih hw (a := a ++ replicate k backslash ++ [c]) (k := 0)
      rw [if_neg hslash, if_neg hc.1, if_neg fun habs => ?_]
      · refine ⟨b, j, hsplit, ?_⟩
        rw [htext]
        simp
      · rcases habs.2 with hblank | htab
        · exact (hc.2 habs.1).1 hblank
        · exact (hc.2 habs.1).2 htab

/-- After a quote, what the loop of `quote_cmd_arg` has written reads as the argument, up to the
quote that ends it. Of the backslashes just read, those before a quote are twice as many. -/
theorem split_quoted (done : List WString) (source : WString) :
    split ⟨done, some a, if hits source then 2 * k else k, true⟩
        ((quoteLoop true source.reverse).reverse ++ [quote]) =
      ⟨done, some (a ++ List.replicate k backslash ++ source), 0, false⟩ := by
  induction source generalizing a k with
  | nil => simp [hits, quoteLoop, split, char, quote, backslash]
  | cons c source ih =>
    have hhits : hits (c :: source) = nextHit (hits source) c := by
      rw [hits, reverse_cons, foldl_append, hits]
      rfl
    rw [reverse_quoteLoop_cons, hhits, append_assoc]
    by_cases hslash : c = backslash
    · subst hslash
      have hnext := ih (a := a) (k := k + 1)
      rw [replicate_succ', append_assoc, append_assoc, singleton_append,
        ← append_assoc] at hnext
      rw [nextHit, if_pos rfl, ← hnext]
      cases hits source <;> rfl
    · have hnext := fun b => ih (a := b) (k := 0)
      simp only [replicate_zero, append_nil, Nat.mul_zero, ite_self] at hnext
      by_cases hquote : c = quote
      · -- `2 * k + 1` backslashes and a quote
        subst hquote
        have hodd : (2 * k + 1) / 2 = k ∧ (2 * k + 1) % 2 = 1 := by omega
        simp [escaped, nextHit, hslash, split_cons, char, hodd, hnext]
      · simp [escaped, nextHit, hslash, hquote, split_cons, char, text, hnext]

theorem split_open : split ⟨done, none, 0, false⟩ (quote :: w) = split ⟨done, some [], 0, true⟩ w := by
  rw [split_cons]
  simp [char, quote, backslash]

theorem split_quoteCmdArg (done : List WString) (source : WString) :
    ∃ b j, split ⟨done, none, 0, false⟩ (quoteCmdArg source) = ⟨done, some b, j, false⟩ ∧
      b ++ List.replicate j backslash = source := by
  have hquoted : split ⟨done, none, 0, false⟩
      (quote :: (quoteLoop true source.reverse).reverse ++ [quote]) =
        ⟨done, some source, 0, false⟩ := by
    have hloop := split_quoted done source (a := []) (k := 0)
    simp only [Nat.mul_zero, ite_self, replicate_zero, nil_append] at hloop
    rw [cons_append, split_open, hloop]
  unfold quoteCmdArg
  split_ifs with hempty hplain hwrapped
  · rw [length_eq_zero_iff] at hempty
    subst hempty
    refine ⟨[], 0, ?_, rfl⟩
    rw [split_open, split_cons]
    simp [char, split, quote, backslash]
  · cases source with
    | nil => exact absurd rfl hempty
    | cons c w =>
      have hset : ∀ b ∈ c :: w, b ≠ quote ∧ b ≠ blank ∧ b ≠ tab := by
        intro b hb
        have hnot := wcspbrk_eq_false hplain hb
        simp only [mem_cons, not_mem_nil, or_false, not_or] at hnot
        exact ⟨hnot.2.2, hnot.1, hnot.2.1⟩
      obtain ⟨b, j, hsplit, htext⟩ := split_plain done (a := []) (k := 0)
        fun b hb => (hset b hb).imp_right fun h (_ : false = false) => h
      refine ⟨b, j, ?_, htext⟩
      have hc := hset c mem_cons_self
      rw [split_cons] at hsplit ⊢
      rw [← hsplit]
      simp only [char, hc, or_self, and_false, ↓reduceIte]
      rfl
  · refine ⟨source, 0, ?_, append_nil source⟩
    rw [quoteLoop_eq_self, reverse_reverse] at hquoted
    · exact hquoted
    · exact fun c hc => wcspbrk_eq_false hwrapped (mem_reverse.mp hc)
  · exact ⟨source, 0, hquoted, append_nil source⟩

end ArgSplit

/-! ## The command line -/

/-- What the arguments are converted to -/
abbrev Wide (args : List (List UInt8)) (ws : List WString) : Prop :=
  List.Forall₂ (fun arg w => toWide arg = .ok w) args ws

variable {toWide} {arg : List UInt8} {args : List (List UInt8)} {ws : List WString} {dst : WString}
  {dstLen room : ℕ} {temp : Option WString}

/-- The characters that are allocated for the arguments. -/
def argsRoom (ws : List WString) : ℕ := (ws.map fun w => 2 * w.length + 4).sum

@[simp] theorem argsRoom_cons : argsRoom (w :: ws) = 2 * w.length + 4 + argsRoom ws := rfl

theorem countArgs_spec (h : Wide toWide args ws) (len max n : ℕ) :
    ∃ len' max', countArgs toWide len max n args = .ok (len', max', n + args.length) ∧
      len' * 2 + (n + args.length) * 2 = len * 2 + n * 2 + argsRoom ws ∧ max ≤ max' ∧
      ∀ w ∈ ws, w.length + 1 ≤ max' := by
  induction h generalizing len max n with
  | nil => exact ⟨len, max, rfl, rfl, le_rfl, fun _ hw => absurd hw not_mem_nil⟩
  | @cons arg w args ws hw _ ih =>
    obtain ⟨len', max', hcount, hroom, hmax, hall⟩ :=
      ih (len + (w.length + 1)) (Max.max max (w.length + 1)) (n + 1)
    have hle := Nat.max_le.mp hmax
    rw [Nat.add_right_comm, Nat.add_assoc n] at hcount
    refine ⟨len', max', ?_, ?_, hle.1, forall_mem_cons.mpr ⟨hle.2, hall⟩⟩
    · rw [countArgs, hw]
      exact hcount
    · rw [argsRoom_cons, length_cons]
      omega

/-- After the call for an argument the buffer holds its text. -/
def Converts (temp : Option WString) (room : ℤ) (w : WString) : Prop :=
  w.length < room ∨ room = 0 ∧ temp = some w

theorem multiByteToWideChar_eq_ok {room : ℤ} {v : WString} (hw : toWide arg = .ok w) :
    multiByteToWideChar toWide temp arg room = .ok v ↔ Converts temp room w ∧ w = v := by
  rw [multiByteToWideChar, hw, Converts]
  dsimp only
  split_ifs with hfit hzero hheld <;> simp [*]

/-- Each argument is converted, with this room before the first. -/
def AllConvert : Option WString → ℕ → List WString → Prop
  | _, _, [] => True
  | temp, room, w :: ws =>
    Converts temp ((room : ℤ).bmod (2 ^ 32)) w ∧ AllConvert (some w) (room - ((quoteCmdArg w).length + 1)) ws

/-- Nothing is cut off when the room is an `int`. -/
theorem allConvert_of_lt (hle : argsRoom ws ≤ room) (hlt : room < 2 ^ 31) : AllConvert temp room ws := by
  induction ws generalizing temp room with
  | nil => exact trivial
  | cons w ws ih =>
    have hlen := length_quoteCmdArg w
    rw [argsRoom_cons] at hle
    refine ⟨.inl ?_, ih (by omega) (by omega)⟩
    rw [Int.bmod_eq_of_le (by omega) (by omega)]
    omega

def commandLine : List WString → WString
  | [] => []
  | w :: ws => quoteCmdArg w ++ (if ws = [] then 0 else blank) :: commandLine ws

theorem writeArgs_eq_ok {line : WString} (h : Wide toWide args ws)
    (hroom : dst.length + room = dstLen) (hle : argsRoom ws ≤ room) :
    writeArgs toWide false dstLen temp dst args = .ok line ↔
      AllConvert temp room ws ∧ dst ++ commandLine ws = line := by
  induction h generalizing temp dst room with
  | nil => simp [writeArgs, AllConvert, commandLine]
  | @cons arg w args ws hw htail ih =>
    have hleft : (dstLen : ℤ) - dst.length = room := by omega
    have hlen := length_quoteCmdArg w
    rw [argsRoom_cons] at hle
    rw [writeArgs, hleft]
    cases hconv : multiByteToWideChar toWide temp arg ((room : ℤ).bmod (2 ^ 32)) with
    | error err =>
      have hnot : ¬Converts temp ((room : ℤ).bmod (2 ^ 32)) w := by
        intro hconverts
        cases hconv.symm.trans ((multiByteToWideChar_eq_ok hw).mpr ⟨hconverts, rfl⟩)
      exact iff_of_false nofun fun hall => hnot hall.1.1
    | ok v =>
      obtain ⟨hconverts, rfl⟩ := (multiByteToWideChar_eq_ok hw).mp hconv
      have hroom' : (dst ++ quoteCmdArg w ++ [if args = [] then 0 else blank]).length +
          (room - ((quoteCmdArg w).length + 1)) = dstLen := by
        rw [length_append, length_append, length_singleton]
        omega
      have hlast : args = [] ↔ ws = [] := by cases htail <;> simp
      have hline : dst ++ quoteCmdArg w ++ [if args = [] then 0 else blank] ++ commandLine ws =
          dst ++ commandLine (w :: ws) := by
        simp [commandLine, hlast]
      refine (ih hroom' (by omega)).trans ?_
      rw [hline]
      exact and_congr_left fun _ => (and_iff_right hconverts).symm

theorem length_commandLine : (commandLine ws).length ≤ argsRoom ws := by
  induction ws with
  | nil => exact Nat.zero_le _
  | cons w ws ih =>
    have hlen := length_quoteCmdArg w
    rw [commandLine, argsRoom_cons, length_append, length_cons]
    omega

/-- The command line has its NUL at the end, and is split into the arguments. -/
theorem commandLine_spec (hnul : ∀ w ∈ ws, 0 ∉ w) (hne : ws ≠ []) :
    ∃ line, commandLine ws = line ++ [0] ∧ 0 ∉ line ∧ ∀ done, ∃ s : ArgSplit,
      ArgSplit.split ⟨done, none, 0, false⟩ line = s ∧
        s.done ++ (s.arg.map fun _ => s.text).toList = done ++ ws := by
  induction ws with
  | nil => exact absurd rfl hne
  | cons w ws ih =>
    obtain ⟨hfree, hnul⟩ := forall_mem_cons.mp hnul
    obtain rfl | hws := eq_or_ne ws []
    · refine ⟨quoteCmdArg w, rfl, not_mem_quoteCmdArg hfree, fun done => ?_⟩
      obtain ⟨b, j, hsplit, htext⟩ := ArgSplit.split_quoteCmdArg done w
      exact ⟨_, hsplit, by rw [← htext]; rfl⟩
    · obtain ⟨line, heq, hline, hsplit⟩ := ih hnul hws
      refine ⟨quoteCmdArg w ++ blank :: line, ?_, ?_, fun done => ?_⟩
      · rw [commandLine, if_neg hws, heq, append_assoc, cons_append]
      · rw [mem_append, mem_cons, not_or, not_or]
        exact ⟨not_mem_quoteCmdArg hfree, by decide, hline⟩
      · obtain ⟨b, j, hfirst, htext⟩ := ArgSplit.split_quoteCmdArg done w
        obtain ⟨s, hs, hall⟩ := hsplit (done ++ [w])
        refine ⟨s, ?_, by rw [hall, append_assoc]; rfl⟩
        rw [ArgSplit.split_append, hfirst, ArgSplit.split_cons, ← hs, ← htext]
        rfl

/-- The command line fits in what was allocated, as each argument does while it is converted and when
it is quoted, ends with its only NUL, and is split into the arguments. -/
structure Passes (ws : List WString) (b : ProgramArgs) : Prop where
  fits : b.dst.length ≤ b.dstLen
  converts : ∀ w ∈ ws, w.length + 1 ≤ b.tempBufferLen
  quotes : ∀ w ∈ ws, (quoteCmdArg w).length ≤ 2 * w.length + 2
  splits : ∃ line, b.dst = line ++ [0] ∧ 0 ∉ line ∧ splitCmdLine line = ws

theorem makeProgramArgs_eq_ok (h : Wide toWide args ws) :
    ∃ max, (∀ w ∈ ws, w.length + 1 ≤ max) ∧ ∀ b, makeProgramArgs toWide args false true true = .ok b ↔
      args.length < 2 ^ 30 ∧ AllConvert none (argsRoom ws) ws ∧
        ⟨commandLine ws, argsRoom ws, max⟩ = b := by
  obtain ⟨len, max, hcount, hroom, -, hall⟩ := countArgs_spec h 0 0 0
  have hdstLen : len * 2 + (0 + args.length) * 2 = argsRoom ws := by omega
  have hstart : ([] : WString).length + argsRoom ws = argsRoom ws := Nat.zero_add _
  refine ⟨max, hall, fun b => ?_⟩
  rw [makeProgramArgs, hcount]
  dsimp only
  rw [hdstLen]
  split_ifs with hmany hnot
  · exact iff_of_false nofun fun habs => by omega
  · cases hnot
  · have hfew : args.length < 2 ^ 30 := by omega
    cases hdst : writeArgs toWide false (argsRoom ws) none [] args with
    | error err =>
      refine iff_of_false nofun fun habs => ?_
      cases hdst.symm.trans ((writeArgs_eq_ok h hstart le_rfl).mpr ⟨habs.2.1, rfl⟩)
    | ok line =>
      obtain ⟨hconv, rfl⟩ := (writeArgs_eq_ok h hstart le_rfl).mp hdst
      exact ⟨fun hb => ⟨hfew, hconv, Except.ok.inj hb⟩, fun hb => congrArg Except.ok hb.2.2⟩

/-- All that can go wrong are the `int`s: the room in the buffer and the arguments' number. -/
theorem makeProgramArgs_passes_iff (hne : args ≠ []) (h : Wide toWide args ws)
    (hnul : ∀ w ∈ ws, 0 ∉ w) :
    (∃ b, makeProgramArgs toWide args false true true = .ok b ∧ Passes ws b) ↔
      args.length < 2 ^ 30 ∧ AllConvert none (argsRoom ws) ws := by
  obtain ⟨max, htemp, heq⟩ := makeProgramArgs_eq_ok h
  constructor
  · rintro ⟨b, hb, -⟩
    obtain ⟨hfew, hall, -⟩ := (heq b).mp hb
    exact ⟨hfew, hall⟩
  · rintro ⟨hfew, hall⟩
    have hws : ws ≠ [] := by
      rintro rfl
      cases h
      exact hne rfl
    obtain ⟨line, hline, hfree, hsplit⟩ := commandLine_spec hnul hws
    obtain ⟨_, rfl, hdone⟩ := hsplit []
    exact ⟨_, (heq _).mpr ⟨hfew, hall, rfl⟩, length_commandLine, htemp,
      fun w _ => length_quoteCmdArg w, line, hline, hfree, hdone⟩

/-- `MultiByteToWideChar` on ASCII characters -/
def asciiToWide (s : List UInt8) : Except ℕ WString := .ok (s.map (·.toUInt16))

/-- `a` and a quote between blanks -/
theorem makeProgramArgs_passes_quote : ∃ b,
    makeProgramArgs asciiToWide [[97], [32, 34, 32]] false true true = .ok b ∧
      Passes [[97], [32, 34, 32]] b :=
  (makeProgramArgs_passes_iff (by decide) (.cons rfl (.cons rfl .nil)) (by decide)).mpr
    ⟨by decide, allConvert_of_lt le_rfl (by decide)⟩

/-- For one argument of `2 ^ 31 - 2` characters the size is `2 ^ 32`, which is 0 as an `int`. -/
theorem not_makeProgramArgs_passes :
    ¬∃ b, makeProgramArgs asciiToWide [List.replicate (2 ^ 31 - 2) 97] false true true = .ok b ∧
      Passes [List.replicate (2 ^ 31 - 2) 97] b := by
  rintro ⟨b, hb, -⟩
  have hwide : (97 : UInt8).toUInt16 = 97 := by decide
  have h : List.Forall₂ (fun arg w => asciiToWide arg = .ok w) [List.replicate (2 ^ 31 - 2) 97]
      [List.replicate (2 ^ 31 - 2) 97] := by
    refine .cons ?_ .nil
    rw [asciiToWide, map_replicate, hwide]
  have hroom : argsRoom [List.replicate (2 ^ 31 - 2) 97] = 2 ^ 32 := by
    rw [argsRoom_cons, length_replicate]
    rfl
  obtain ⟨max, -, heq⟩ := makeProgramArgs_eq_ok h
  obtain ⟨-, ⟨hconv, -⟩, -⟩ := (heq b).mp hb
  rw [hroom, Converts, Int.bmod_self] at hconv
  rcases hconv with hlt | ⟨-, hnone⟩
  · omega
  · cases hnone

end LibuvWorks.Win
