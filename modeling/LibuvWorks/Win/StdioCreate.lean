import LibuvWorks.Lib.Blocks
import Mathlib.Data.List.Basic

/-!
# The stdio buffer of a child process on Windows

The handles that a child inherits are passed on in one block: their number, a byte of flags for each,
and then the handles, which are not aligned. `uv__stdio_create` fills it one slot after the other;
when a handle cannot be created it destroys what it has.
-/

namespace LibuvWorks.Win.Stdio

open List Nat
open Function (update update_eq_self update_of_ne update_self)

/-- A `HANDLE` of `w` bytes -/
abbrev RawHandle (w : ℕ) := { h : ℕ // h < 256 ^ w }

variable {w : ℕ}

/-- `INVALID_HANDLE_VALUE`, which is -1 -/
def invalidHandle : RawHandle w := ⟨256 ^ w - 1, Nat.sub_lt (Nat.pow_pos (by decide)) Nat.one_pos⟩

/-! ### The layout -/

def childStdioSize (w count : ℕ) : ℕ := 4 + count + w * count

def childStdioCount (buffer : List UInt8) : ℕ := LittleEndian.ofBytes (Field.read buffer 0 4)

def childStdioCrtFlags (buffer : List UInt8) (fd : ℕ) : UInt8 :=
  (Field.read buffer (4 + fd) 1).headD 0

/-- Where `CHILD_STDIO_HANDLE` is -/
def handleOffset (w : ℕ) (buffer : List UInt8) (fd : ℕ) : ℕ :=
  4 + childStdioCount buffer + w * fd

def childStdioHandle (w : ℕ) (buffer : List UInt8) (fd : ℕ) : ℕ :=
  LittleEndian.ofBytes (Field.read buffer (handleOffset w buffer fd) w)

def setCount (buffer : List UInt8) (count : ℕ) : List UInt8 :=
  Field.write buffer 0 (LittleEndian.toBytes 4 count)

def setCrtFlags (buffer : List UInt8) (fd : ℕ) (flags : UInt8) : List UInt8 :=
  Field.write buffer (4 + fd) [flags]

def setHandle (buffer : List UInt8) (fd : ℕ) (h : RawHandle w) : List UInt8 :=
  Field.write buffer (handleOffset w buffer fd) (LittleEndian.toBytes w h)

/-- A buffer with `n` slots, and the flags and handles in them -/
structure Holds (buffer : List UInt8) (n : ℕ) (flags : ℕ → UInt8) (handles : ℕ → RawHandle w) :
    Prop where
  size : buffer.length = childStdioSize w n
  count : childStdioCount buffer = n
  flags : ∀ i < n, childStdioCrtFlags buffer i = flags i
  handles : ∀ i < n, childStdioHandle w buffer i = handles i

variable {buffer : List UInt8} {n i : ℕ} {flags : ℕ → UInt8} {handles : ℕ → RawHandle w}

theorem Holds.setCrtFlags (h : Holds buffer n flags handles) (hi : i < n) (f : UInt8) :
    Holds (setCrtFlags buffer i f) n (update flags i f) handles := by
  have hsize := h.size
  have hoff : 4 + i + [f].length ≤ buffer.length := by
    rw [hsize, childStdioSize, length_singleton]
    omega
  have hbelow : ∀ off len, off + len ≤ 4 + i →
      Field.read (Stdio.setCrtFlags buffer i f) off len = Field.read buffer off len :=
    fun off len hle => Field.read_write_of_le hoff hle
  have habove : ∀ off len, 4 + i + 1 ≤ off →
      Field.read (Stdio.setCrtFlags buffer i f) off len = Field.read buffer off len :=
    fun off len hge => Field.read_write_of_ge hoff hge
  have hself : Field.read (Stdio.setCrtFlags buffer i f) (4 + i) 1 = [f] :=
    Field.read_write_self hoff
  have hcount : childStdioCount (Stdio.setCrtFlags buffer i f) = n := by
    rw [childStdioCount, hbelow 0 4 (by omega)]
    exact h.count
  refine ⟨(Field.length_write hoff).trans hsize, hcount, fun j hj => ?_, fun j hj => ?_⟩
  · by_cases hij : j = i
    · rw [hij, update_self, childStdioCrtFlags, hself]
      rfl
    · rw [update_of_ne hij, ← h.flags j hj, childStdioCrtFlags, childStdioCrtFlags]
      rcases Nat.lt_or_ge j i with hlt | hge
      · rw [hbelow _ _ (by omega)]
      · rw [habove _ _ (by omega)]
  · rw [← h.handles j hj, childStdioHandle, childStdioHandle, handleOffset, handleOffset, hcount,
      h.count, habove _ _ (by omega)]

theorem Holds.setHandle (h : Holds buffer n flags handles) (hi : i < n) (x : RawHandle w) :
    Holds (setHandle buffer i x) n flags (update handles i x) := by
  have hsize := h.size
  have hbytes : (LittleEndian.toBytes w x).length = w := LittleEndian.length_toBytes
  have hmul : ∀ {j k : ℕ}, j < k → w * j + w ≤ w * k := fun hjk => by
    rw [← mul_succ]
    exact Nat.mul_le_mul_left w hjk
  have hplace : ∀ j, handleOffset w buffer j = 4 + n + w * j := fun j => by
    rw [handleOffset, h.count]
  have hoff : 4 + n + w * i + (LittleEndian.toBytes w x).length ≤ buffer.length := by
    have hlast := hmul hi
    rw [hsize, childStdioSize, hbytes]
    omega
  have hwrite : Stdio.setHandle buffer i x =
      Field.write buffer (4 + n + w * i) (LittleEndian.toBytes w x) := by
    rw [Stdio.setHandle, hplace]
  have hbelow : ∀ off len, off + len ≤ 4 + n + w * i →
      Field.read (Stdio.setHandle buffer i x) off len = Field.read buffer off len := by
    rw [hwrite]
    exact fun off len hle => Field.read_write_of_le hoff hle
  have habove : ∀ off len, 4 + n + w * i + w ≤ off →
      Field.read (Stdio.setHandle buffer i x) off len = Field.read buffer off len := by
    rw [hwrite]
    exact fun off len hge => Field.read_write_of_ge hoff (hbytes.symm ▸ hge)
  have hself : Field.read (Stdio.setHandle buffer i x) (4 + n + w * i) w =
      LittleEndian.toBytes w x := by
    have hread := Field.read_write_self hoff
    rwa [hbytes, ← hwrite] at hread
  have hcount : childStdioCount (Stdio.setHandle buffer i x) = n := by
    rw [childStdioCount, hbelow 0 4 (by omega)]
    exact h.count
  refine ⟨?_, hcount, fun j hj => ?_, fun j hj => ?_⟩
  · rw [hwrite]
    exact (Field.length_write hoff).trans hsize
  · rw [← h.flags j hj, childStdioCrtFlags, childStdioCrtFlags, hbelow _ _ (by omega)]
  · rw [childStdioHandle, handleOffset, hcount]
    by_cases hij : j = i
    · rw [hij, update_self, hself, LittleEndian.ofBytes_toBytes x.2]
    · rw [update_of_ne hij, ← h.handles j hj, childStdioHandle, hplace]
      rcases Nat.lt_or_ge j i with hlt | hge
      · rw [hbelow _ _ (by have := hmul hlt; omega)]
      · have hlt : i < j := by omega
        rw [habove _ _ (by have := hmul hlt; omega)]

/-! ### The code -/

abbrev CallError := { e : ℤ // e ≠ 0 }

/-- What a call that opens a handle returns; it is not `INVALID_HANDLE_VALUE`. -/
abbrev OpenHandle (w : ℕ) := { h : RawHandle w // h ≠ invalidHandle }

/-- What `GetFileType` says -/
inductive FileType where
  | unknown
  | disk
  | char
  | pipe
  | remote
  deriving DecidableEq

inductive StreamType where
  | tty
  | namedPipe
  | other
  deriving DecidableEq

/-- `uv_stream_t`, with the flags of a pipe and the handle of a terminal or pipe -/
structure StdioStream (w : ℕ) where
  type : StreamType
  connection : Bool
  pipeServer : Bool
  handle : RawHandle w

/-- `uv_stdio_container_t`, by its flags. No other flags are allowed together. -/
inductive StdioContainer (w : ℕ) where
  | ignore : StdioContainer w
  | createPipe (readable writable : Bool) (stream : StdioStream w) : StdioContainer w
  | inheritFd (fd : ℤ) : StdioContainer w
  | inheritStream (stream : StdioStream w) : StdioContainer w
  | other : StdioContainer w

/-- What a handle was created for: the `NUL` device for input or output, the child's end of a pipe, or
the duplicate of a handle -/
inductive HandleSource (w : ℕ) where
  | nul (input : Bool) : HandleSource w
  | pipeEnd (readable writable : Bool) : HandleSource w
  | duplicate (h : RawHandle w) : HandleSource w

structure Created (w : ℕ) where
  handle : OpenHandle w
  inheritable : Bool
  source : HandleSource w

/-- What the system answers for the slot at an index. A duplicate is of the same type as what it was
made from, the `NUL` device and terminals are character devices, and pipes are pipes. -/
structure StdioSystem (w : ℕ) (opts : List (StdioContainer w)) where
  malloc : ℕ → Option (List UInt8)
  nul : ℕ → Except CallError (OpenHandle w)
  childPipe : ℕ → Except CallError (OpenHandle w)
  osfhandle : ℤ → RawHandle w
  duplicate : ℕ → RawHandle w → Except CallError (OpenHandle w)
  fileType : RawHandle w → FileType
  lastError : ℕ → ℤ
  malloc_length : ∀ size block, malloc size = some block → block.length = size
  nul_type : ∀ i h, nul i = .ok h → fileType h = .char
  childPipe_type : ∀ i h, childPipe i = .ok h → fileType h = .pipe
  duplicate_type : ∀ i h h', duplicate i h = .ok h' → fileType h' = fileType h
  tty_type : ∀ stream, .inheritStream stream ∈ opts → stream.type = .tty →
    fileType stream.handle = .char
  pipe_type : ∀ stream, .inheritStream stream ∈ opts → stream.type = .namedPipe →
    fileType stream.handle = .pipe

def fopen : UInt8 := 0x01
def fpipe : UInt8 := 0x08
def fdev : UInt8 := 0x40

def errorInvalidHandle : ℤ := 6
def errorOutofmemory : ℤ := 14
def errorNotSupported : ℤ := 50

/-- The buffer with the handles that were created and closed and how often it was freed -/
structure StdioState (w : ℕ) where
  buffer : List UInt8
  created : List (Created w)
  closes : List (RawHandle w)
  frees : ℕ

namespace StdioState

variable (s : StdioState w)

def opened (x : Created w) : StdioState w := { s with created := s.created ++ [x] }

def setCrtFlags (i : ℕ) (f : UInt8) : StdioState w :=
  { s with buffer := Stdio.setCrtFlags s.buffer i f }

def setHandle (i : ℕ) (h : RawHandle w) : StdioState w :=
  { s with buffer := Stdio.setHandle s.buffer i h }

def uvStdioDestroy : StdioState w :=
  let handles := (List.range (childStdioCount s.buffer)).filterMap fun i =>
    if h : childStdioHandle w s.buffer i < 256 ^ w then
      some (⟨childStdioHandle w s.buffer i, h⟩ : RawHandle w)
    else none
  { s with
    closes := s.closes ++ handles.filter (· ≠ invalidHandle)
    frees := s.frees + 1 }

end StdioState

section

variable {opts : List (StdioContainer w)} (sys : StdioSystem w opts) (i : ℕ)

def uvCreateNulHandle : Except CallError (Created w) :=
  (sys.nul i).map fun h => ⟨h, true, .nul (i = 0)⟩

/-- `uv__create_stdio_pipe_pair`; when it fails it closes what it has opened. -/
def uvCreateStdioPipePair (readable writable : Bool) : Except CallError (Created w) :=
  (sys.childPipe i).map fun h => ⟨h, true, .pipeEnd readable writable⟩

def uvDuplicateHandle (h : RawHandle w) : Except CallError (Created w) :=
  if h = invalidHandle ∨ h.1 = 0 ∨ h.1 = 256 ^ w - 2 then .error ⟨errorInvalidHandle, by decide⟩
  else (sys.duplicate i h).map fun h' => ⟨h', true, .duplicate h⟩

def uvDuplicateFd (fd : ℤ) : Except CallError (Created w) :=
  if fd = -1 then .error ⟨errorInvalidHandle, by decide⟩
  else uvDuplicateHandle sys i (sys.osfhandle fd)

/-- The handle and the flags of a stream that can be inherited -/
def streamHandle (stream : StdioStream w) : RawHandle w × UInt8 :=
  match stream.type, stream.connection with
  | .tty, _ => (stream.handle, fopen ||| fdev)
  | .namedPipe, true => (stream.handle, fopen ||| fpipe)
  | _, _ => (invalidHandle, 0)

/-- A round of the loop of `uv__stdio_create`; none if an assertion fails. -/
def createSlot (s : StdioState w) : StdioContainer w → Option (ℤ × StdioState w)
  | .ignore =>
    if i ≤ 2 then
      match uvCreateNulHandle sys i with
      | .error e => some (e, s)
      | .ok x => some (0, ((s.opened x).setHandle i x.handle).setCrtFlags i (fopen ||| fdev))
    else some (0, s)
  | .createPipe readable writable stream =>
    if stream.type ≠ .namedPipe ∨ stream.connection = true ∨ stream.pipeServer = true then none
    else
      match uvCreateStdioPipePair sys i readable writable with
      | .error e => some (e, s)
      | .ok x => some (0, ((s.opened x).setHandle i x.handle).setCrtFlags i (fopen ||| fpipe))
  | .inheritFd fd =>
    match uvDuplicateFd sys i fd with
    | .error e =>
      if fd ≤ 2 ∧ e.1 = errorInvalidHandle then
        some (0, (s.setCrtFlags i 0).setHandle i invalidHandle)
      else some (e, s)
    | .ok x =>
      let s := s.opened x
      match sys.fileType x.handle with
      | .disk => some (0, (s.setCrtFlags i fopen).setHandle i x.handle)
      | .pipe =>
        -- there is no `break` behind this case
        some (0, ((s.setCrtFlags i (fopen ||| fpipe)).setCrtFlags i (fopen ||| fdev)).setHandle i
          x.handle)
      | .char | .remote => some (0, (s.setCrtFlags i (fopen ||| fdev)).setHandle i x.handle)
      | .unknown =>
        if sys.lastError i ≠ 0 then
          some (sys.lastError i, { s with closes := s.closes ++ [x.handle.1] })
        else some (0, (s.setCrtFlags i (fopen ||| fdev)).setHandle i x.handle)
  | .inheritStream stream =>
    let (handle, flags) := streamHandle stream
    if handle.1 = 0 ∨ handle = invalidHandle then some (errorNotSupported, s)
    else
      match uvDuplicateHandle sys i handle with
      | .error e => some (e, s)
      | .ok x => some (0, ((s.opened x).setHandle i x.handle).setCrtFlags i flags)
  | .other => none

/-- The loop of `uv__stdio_create` -/
def createSlots : List (StdioContainer w) → ℕ → StdioState w → Option (ℤ × StdioState w)
  | [], _, s => some (0, s)
  | c :: cs, i, s =>
    match createSlot sys i s c with
    | none => none
    | some (err, s) => if err ≠ 0 then some (err, s.uvStdioDestroy) else createSlots cs (i + 1) s

end

/-- The loop that prepopulates the slots before `n` -/
def prepopulate (w : ℕ) (buffer : List UInt8) : ℕ → List UInt8
  | 0 => buffer
  | n + 1 =>
    setHandle (setCrtFlags (prepopulate w buffer n) n 0) n (invalidHandle : RawHandle w)

def slotContainers (opts : List (StdioContainer w)) : List (StdioContainer w) :=
  opts ++ List.replicate (3 - opts.length) .ignore

/-- `uv__stdio_create`; there is a state if the buffer was allocated. -/
def uvStdioCreate {opts : List (StdioContainer w)} (sys : StdioSystem w opts) :
    Option (ℤ × Option (StdioState w)) :=
  if 255 < opts.length then some (errorNotSupported, none)
  else
    let count := if opts.length < 3 then 3 else opts.length
    match sys.malloc (childStdioSize w count) with
    | none => some (errorOutofmemory, none)
    | some block =>
      (createSlots sys (slotContainers opts) 0
        ⟨prepopulate w (setCount block count) count, [], [], 0⟩).map fun (err, s) => (err, some s)

/-! ### The empty buffer -/

theorem childStdioHandle_lt (w : ℕ) (buffer : List UInt8) (fd : ℕ) :
    childStdioHandle w buffer fd < 256 ^ w := by
  have hlen : (Field.read buffer (handleOffset w buffer fd) w).length ≤ w := by
    rw [Field.read, length_take]
    exact Nat.min_le_left ..
  exact Nat.lt_of_lt_of_le (LittleEndian.ofBytes_lt _) (Nat.pow_le_pow_right (by decide) hlen)

theorem Holds.of_setCount (hsize : buffer.length = childStdioSize w n) (hn : n < 256 ^ 4) :
    Holds (w := w) (setCount buffer n) n (childStdioCrtFlags (setCount buffer n)) fun i =>
      ⟨childStdioHandle w (setCount buffer n) i, childStdioHandle_lt ..⟩ := by
  have hbytes : (LittleEndian.toBytes 4 n).length = 4 := LittleEndian.length_toBytes
  have hoff : 0 + (LittleEndian.toBytes 4 n).length ≤ buffer.length := by
    rw [hbytes, hsize, childStdioSize]
    omega
  have hself := Field.read_write_self hoff
  rw [hbytes] at hself
  refine ⟨(Field.length_write hoff).trans hsize, ?_, fun _ _ => rfl, fun _ _ => rfl⟩
  rw [childStdioCount, setCount, hself]
  exact LittleEndian.ofBytes_toBytes hn

/-- The flags and handles of the slots before `i` that are left, and of empty slots from there on -/
structure EmptyFrom (n i : ℕ) (flags : ℕ → UInt8) (handles : ℕ → RawHandle w) : Prop where
  flags : ∀ j, i ≤ j → j < n → flags j = 0
  handles : ∀ j, i ≤ j → j < n → handles j = invalidHandle

theorem Holds.prepopulate (h : Holds buffer n flags handles) {k : ℕ} (hk : k ≤ n) :
    ∃ flags' handles', Holds (w := w) (prepopulate w buffer k) n flags' handles' ∧
      ∀ j < k, flags' j = 0 ∧ handles' j = invalidHandle := by
  induction k with
  | zero => exact ⟨flags, handles, h, nofun⟩
  | succ k ih =>
    obtain ⟨flags', handles', hholds, hbelow⟩ := ih (le_of_succ_le hk)
    refine ⟨_, _, (hholds.setCrtFlags hk 0).setHandle hk invalidHandle, fun j hj => ?_⟩
    by_cases hjk : j = k
    · rw [hjk, update_self, update_self]
      exact ⟨rfl, rfl⟩
    · rw [update_of_ne hjk, update_of_ne hjk]
      exact hbelow j (by omega)

theorem Holds.of_prepopulate (hsize : buffer.length = childStdioSize w n) (hn : n < 256 ^ 4) :
    ∃ flags handles, Holds (w := w) (Stdio.prepopulate w (setCount buffer n) n) n flags handles ∧
      EmptyFrom n 0 flags handles := by
  obtain ⟨flags, handles, hholds, hempty⟩ := (Holds.of_setCount hsize hn).prepopulate (Nat.le_refl n)
  exact ⟨flags, handles, hholds, fun j _ hj => (hempty j hj).1, fun j _ hj => (hempty j hj).2⟩

/-! ### One slot -/

variable {opts : List (StdioContainer w)} {sys : StdioSystem w opts} {c : StdioContainer w}
  {s t : StdioState w}

inductive Asks (sys : StdioSystem w opts) (i : ℕ) : StdioContainer w → Option (Created w) → Prop
  | nul {x : Created w} : i ≤ 2 → uvCreateNulHandle sys i = .ok x → Asks sys i .ignore (some x)
  | none : 2 < i → Asks sys i .ignore none
  | pipe {readable writable : Bool} {stream : StdioStream w} {x : Created w} :
    uvCreateStdioPipePair sys i readable writable = .ok x →
      Asks sys i (.createPipe readable writable stream) (some x)
  | fd {fd : ℤ} {x : Created w} : uvDuplicateFd sys i fd = .ok x →
      Asks sys i (.inheritFd fd) (some x)
  | invalidFd {fd : ℤ} {e : CallError} : fd ≤ 2 → uvDuplicateFd sys i fd = .error e →
      e.1 = errorInvalidHandle → Asks sys i (.inheritFd fd) Option.none
  | stream {stream : StdioStream w} {x : Created w} :
    uvDuplicateHandle sys i stream.handle = .ok x → Asks sys i (.inheritStream stream) (some x)

/-- The flags that belong to the type of a handle -/
def FlagsRight (sys : StdioSystem w opts) (f : UInt8) : Option (Created w) → Prop
  | none => f = 0
  | some x => (f = fopen ||| fpipe ↔ sys.fileType x.handle = .pipe) ∧
      (sys.fileType x.handle = .char → f = fopen ||| fdev) ∧
      (sys.fileType x.handle = .disk → f = fopen)

def handleOf : Option (Created w) → RawHandle w
  | none => invalidHandle
  | some x => x.handle

def PipeFd (sys : StdioSystem w opts) (i : ℕ) (c : StdioContainer w) : Prop :=
  ∃ fd x, c = .inheritFd fd ∧ uvDuplicateFd sys i fd = .ok x ∧ sys.fileType x.handle = .pipe

/-- The calls for a slot succeed, and no assertion fails. -/
def Creates (sys : StdioSystem w opts) (i : ℕ) : StdioContainer w → Prop
  | .ignore => i ≤ 2 → ∃ x, uvCreateNulHandle sys i = .ok x
  | .createPipe readable writable stream =>
    (stream.type = .namedPipe ∧ stream.connection = false ∧ stream.pipeServer = false) ∧
      ∃ x, uvCreateStdioPipePair sys i readable writable = .ok x
  | .inheritFd fd =>
    match uvDuplicateFd sys i fd with
    | .error e => fd ≤ 2 ∧ e.1 = errorInvalidHandle
    | .ok x => sys.fileType x.handle = .unknown → sys.lastError i = 0
  | .inheritStream stream =>
    (stream.type = .tty ∨ stream.type = .namedPipe ∧ stream.connection = true) ∧
      ∃ x, uvDuplicateHandle sys i stream.handle = .ok x
  | .other => False

/-- How a round of the loop ends: an assertion fails, a call fails and what was created in the round
is closed, or the slot is filled. -/
inductive SlotEnds (sys : StdioSystem w opts) (n i : ℕ) (c : StdioContainer w) (s : StdioState w)
    (flags : ℕ → UInt8) (handles : ℕ → RawHandle w) : Option (ℤ × StdioState w) → Prop
  | asserts : ¬Creates sys i c → SlotEnds sys n i c s flags handles none
  | fails {e : ℤ} (xs : List (Created w)) : ¬Creates sys i c → e ≠ 0 →
      SlotEnds sys n i c s flags handles (some (e, { s with
        created := s.created ++ xs
        closes := s.closes ++ xs.map fun x => x.handle.1 }))
  | fills {t : StdioState w} (f : UInt8) (x : Option (Created w)) : Creates sys i c →
      Holds t.buffer n (update flags i f) (update handles i (handleOf x)) →
      t.created = s.created ++ x.toList → t.closes = s.closes → t.frees = s.frees →
      Asks sys i c x → (FlagsRight sys f x ↔ ¬PipeFd sys i c) →
      SlotEnds sys n i c s flags handles (some (0, t))

theorem SlotEnds.fails_at_once {e : ℤ} (hc : ¬Creates sys i c) (he : e ≠ 0) :
    SlotEnds sys n i c s flags handles (some (e, s)) := by
  have h : SlotEnds sys n i c s flags handles (some (e, { s with
      created := s.created ++ []
      closes := s.closes ++ [].map fun x : Created w => x.handle.1 })) := .fails [] hc he
  rwa [map_nil, append_nil, append_nil] at h

section

variable {x : Created w}

theorem flagsRight_fdev (hp : sys.fileType x.handle ≠ .pipe)
    (hd : sys.fileType x.handle ≠ .disk) : FlagsRight sys (fopen ||| fdev) (some x) :=
  ⟨⟨fun h => absurd h (by decide), fun h => (hp h).elim⟩, fun _ => rfl, fun h => (hd h).elim⟩

theorem flagsRight_fpipe (hp : sys.fileType x.handle = .pipe) :
    FlagsRight sys (fopen ||| fpipe) (some x) := by
  refine ⟨⟨fun _ => hp, fun _ => rfl⟩, fun h => ?_, fun h => ?_⟩ <;>
    exact nomatch hp.symm.trans h

theorem flagsRight_fopen (hd : sys.fileType x.handle = .disk) :
    FlagsRight sys fopen (some x) := by
  refine ⟨⟨fun h => absurd h (by decide), fun h => ?_⟩, fun h => ?_, fun _ => rfl⟩ <;>
    exact nomatch hd.symm.trans h

theorem uvCreateNulHandle_type (h : uvCreateNulHandle sys i = .ok x) :
    sys.fileType x.handle = .char := by
  unfold uvCreateNulHandle at h
  cases hnul : sys.nul i with
  | error e =>
    rw [hnul] at h
    cases h
  | ok y =>
    rw [hnul] at h
    cases h
    exact sys.nul_type i y hnul

theorem uvCreateStdioPipePair_type {readable writable : Bool}
    (h : uvCreateStdioPipePair sys i readable writable = .ok x) :
    sys.fileType x.handle = .pipe := by
  unfold uvCreateStdioPipePair at h
  cases hpipe : sys.childPipe i with
  | error e =>
    rw [hpipe] at h
    cases h
  | ok y =>
    rw [hpipe] at h
    cases h
    exact sys.childPipe_type i y hpipe

theorem uvDuplicateHandle_type {h : RawHandle w}
    (hx : uvDuplicateHandle sys i h = .ok x) : sys.fileType x.handle = sys.fileType h := by
  unfold uvDuplicateHandle at hx
  split at hx
  · cases hx
  · cases hdup : sys.duplicate i h with
    | error e =>
      rw [hdup] at hx
      cases hx
    | ok y =>
      rw [hdup] at hx
      cases hx
      exact sys.duplicate_type i h y hdup

end

theorem SlotEnds.fills_right {f : UInt8} {x : Option (Created w)} (hc : Creates sys i c)
    (hholds : Holds t.buffer n (update flags i f) (update handles i (handleOf x)))
    (hcreated : t.created = s.created ++ x.toList) (hcloses : t.closes = s.closes)
    (hfrees : t.frees = s.frees) (hasks : Asks sys i c x) (hflags : FlagsRight sys f x)
    (hfd : ¬PipeFd sys i c) : SlotEnds sys n i c s flags handles (some (0, t)) :=
  .fills f x hc hholds hcreated hcloses hfrees hasks ⟨fun _ => hfd, fun _ => hflags⟩

section

variable (hholds : Holds s.buffer n flags handles)
include hholds

theorem createSlot_ignore_ends (hi : i < n)
    (hf : flags i = 0) (hh : handles i = invalidHandle) :
    SlotEnds sys n i .ignore s flags handles (createSlot sys i s .ignore) := by
  have hfd : ¬PipeFd sys i .ignore := fun ⟨_, _, h, _⟩ => nomatch h
  by_cases h2 : i ≤ 2
  · cases hnul : uvCreateNulHandle sys i with
    | error e =>
      simp only [createSlot, if_pos h2, hnul]
      refine .fails_at_once (fun hc => ?_) e.2
      obtain ⟨x, hx⟩ := hc h2
      exact nomatch hnul.symm.trans hx
    | ok x =>
      simp only [createSlot, if_pos h2, hnul]
      have htype := uvCreateNulHandle_type hnul
      exact .fills_right (x := some x) (fun _ => ⟨x, hnul⟩)
        ((hholds.setHandle hi x.handle.1).setCrtFlags hi (fopen ||| fdev)) rfl rfl rfl (.nul h2 hnul)
        (flagsRight_fdev (by rw [htype]; decide) (by rw [htype]; decide)) hfd
  · simp only [createSlot, if_neg h2]
    refine .fills_right (f := 0) (x := none) (fun h => (h2 h).elim) ?_ (append_nil _).symm rfl
      rfl (.none (by omega)) rfl hfd
    rw [handleOf, ← hf, ← hh, update_eq_self, update_eq_self]
    exact hholds

variable {stream : StdioStream w}

theorem createSlot_createPipe_ends {readable writable : Bool} (hi : i < n) :
    SlotEnds sys n i (.createPipe readable writable stream) s flags handles
      (createSlot sys i s (.createPipe readable writable stream)) := by
  have hfd : ¬PipeFd sys i (.createPipe readable writable stream) := fun ⟨_, _, h, _⟩ => nomatch h
  by_cases hassert : stream.type ≠ .namedPipe ∨ stream.connection = true ∨ stream.pipeServer = true
  · simp only [createSlot, if_pos hassert]
    refine .asserts fun hc => ?_
    obtain ⟨⟨htype, hconn, hserver⟩, _⟩ := hc
    rw [htype, hconn, hserver] at hassert
    exact absurd hassert (by decide)
  · have hstream : stream.type = .namedPipe ∧ stream.connection = false ∧
        stream.pipeServer = false := by
      rw [not_or, not_or, not_not, Bool.not_eq_true, Bool.not_eq_true] at hassert
      exact hassert
    cases hpipe : uvCreateStdioPipePair sys i readable writable with
    | error e =>
      simp only [createSlot, if_neg hassert, hpipe]
      refine .fails_at_once (fun hc => ?_) e.2
      obtain ⟨_, x, hx⟩ := hc
      exact nomatch hpipe.symm.trans hx
    | ok x =>
      simp only [createSlot, if_neg hassert, hpipe]
      exact .fills_right (x := some x) ⟨hstream, x, hpipe⟩
        ((hholds.setHandle hi x.handle.1).setCrtFlags hi (fopen ||| fpipe)) rfl rfl rfl (.pipe hpipe)
        (flagsRight_fpipe (uvCreateStdioPipePair_type hpipe)) hfd

theorem createSlot_inheritFd_ends {fd : ℤ} (hi : i < n) :
    SlotEnds sys n i (.inheritFd fd) s flags handles (createSlot sys i s (.inheritFd fd)) := by
  cases hdup : uvDuplicateFd sys i fd with
  | error e =>
    have hfd : ¬PipeFd sys i (.inheritFd fd) := by
      rintro ⟨fd', x, h, hx, -⟩
      cases h
      exact nomatch hdup.symm.trans hx
    by_cases hinvalid : fd ≤ 2 ∧ e.1 = errorInvalidHandle
    · simp only [createSlot, hdup, if_pos hinvalid]
      have hc : Creates sys i (.inheritFd fd) := by
        simp only [Creates, hdup]
        exact hinvalid
      exact .fills_right (x := none) hc ((hholds.setCrtFlags hi 0).setHandle hi invalidHandle)
        (append_nil _).symm rfl rfl (.invalidFd hinvalid.1 hdup hinvalid.2) rfl hfd
    · simp only [createSlot, hdup, if_neg hinvalid]
      refine .fails_at_once (fun hc => hinvalid ?_) e.2
      simp only [Creates, hdup] at hc
      exact hc
  | ok x =>
    have hcreates : (sys.fileType x.handle = .unknown → sys.lastError i = 0) →
        Creates sys i (.inheritFd fd) := fun h => by
      simp only [Creates, hdup]
      exact h
    have hpipe : PipeFd sys i (.inheritFd fd) ↔ sys.fileType x.handle = .pipe := by
      constructor
      · rintro ⟨fd', y, h, hy, htype⟩
        cases h
        cases hdup.symm.trans hy
        exact htype
      · exact fun htype => ⟨fd, x, rfl, hdup, htype⟩
    -- the flags that every case but that of a file leaves
    have hfdev : ∀ t : StdioState w, Holds t.buffer n (update flags i (fopen ||| fdev))
        (update handles i x.handle) → t.created = s.created ++ [x] → t.closes = s.closes →
        t.frees = s.frees → sys.fileType x.handle ≠ .disk →
        (sys.fileType x.handle = .unknown → sys.lastError i = 0) →
        SlotEnds sys n i (.inheritFd fd) s flags handles (some (0, t)) := by
      intro t ht hcreated hcloses hfrees hdisk hunknown
      refine .fills _ (some x) (hcreates hunknown) ht hcreated hcloses hfrees (.fd hdup) ?_
      rw [hpipe]
      constructor
      · intro hflags htype
        exact absurd (hflags.1.2 htype) (by decide)
      · exact fun htype => flagsRight_fdev htype hdisk
    have hset := (hholds.setCrtFlags hi (fopen ||| fdev)).setHandle hi x.handle.1
    cases htype : sys.fileType x.handle with
    | disk =>
      simp only [createSlot, hdup, htype]
      refine .fills_right (x := some x) (hcreates fun h => nomatch htype.symm.trans h)
        ((hholds.setCrtFlags hi fopen).setHandle hi x.handle.1) rfl rfl rfl (.fd hdup)
        (flagsRight_fopen htype) fun h => ?_
      exact nomatch htype.symm.trans (hpipe.mp h)
    | pipe =>
      simp only [createSlot, hdup, htype]
      have hset := ((hholds.setCrtFlags hi (fopen ||| fpipe)).setCrtFlags hi
        (fopen ||| fdev)).setHandle hi x.handle.1
      rw [Function.update_idem] at hset
      exact hfdev _ hset rfl rfl rfl (by rw [htype]; decide) fun h => nomatch htype.symm.trans h
    | char | remote =>
      simp only [createSlot, hdup, htype]
      exact hfdev _ hset rfl rfl rfl (by rw [htype]; decide) fun h => nomatch htype.symm.trans h
    | unknown =>
      by_cases herr : sys.lastError i = 0
      · simp only [createSlot, hdup, htype, herr, ne_eq, not_true_eq_false, if_false]
        exact hfdev _ hset rfl rfl rfl (by rw [htype]; decide) fun _ => herr
      · simp only [createSlot, hdup, htype, ne_eq, herr, not_false_eq_true, if_true]
        refine .fails [x] (fun hc => herr ?_) herr
        simp only [Creates, hdup] at hc
        exact hc htype

theorem createSlot_inheritStream_ends (hi : i < n) (hc : .inheritStream stream ∈ opts) :
    SlotEnds sys n i (.inheritStream stream) s flags handles
      (createSlot sys i s (.inheritStream stream)) := by
  have hfd : ¬PipeFd sys i (.inheritStream stream) := fun ⟨_, _, h, _⟩ => nomatch h
  -- a stream of another type leaves an invalid handle
  have hinherit : (stream.type = .tty ∨ stream.type = .namedPipe ∧ stream.connection = true) ∧
        (streamHandle stream).1 = stream.handle ∨
      ¬(stream.type = .tty ∨ stream.type = .namedPipe ∧ stream.connection = true) ∧
        (streamHandle stream).1 = invalidHandle := by
    unfold streamHandle
    cases stream.type <;> cases stream.connection <;> simp
  rcases hstr : streamHandle stream with ⟨handle, f⟩
  rw [hstr] at hinherit
  simp only [createSlot, hstr]
  rcases hinherit with ⟨hstream, rfl⟩ | ⟨hstream, rfl⟩
  · by_cases hinvalid : stream.handle.1 = 0 ∨ stream.handle = invalidHandle
    · rw [if_pos hinvalid]
      refine .fails_at_once (fun hcreates => ?_) (by decide)
      obtain ⟨_, x, hx⟩ := hcreates
      rw [uvDuplicateHandle, if_pos (by tauto)] at hx
      cases hx
    · rw [if_neg hinvalid]
      cases hdup : uvDuplicateHandle sys i stream.handle with
      | error e =>
        refine .fails_at_once (fun hcreates => ?_) e.2
        obtain ⟨_, x, hx⟩ := hcreates
        exact nomatch hdup.symm.trans hx
      | ok x =>
        have htype := uvDuplicateHandle_type hdup
        refine .fills_right (x := some x) ⟨hstream, x, hdup⟩
          ((hholds.setHandle hi x.handle.1).setCrtFlags hi f) rfl rfl rfl (.stream hdup) ?_ hfd
        rcases hstream with htty | ⟨hpipe, hconn⟩
        · rw [streamHandle, htty] at hstr
          cases hstr
          rw [sys.tty_type stream hc htty] at htype
          exact flagsRight_fdev (by rw [htype]; decide) (by rw [htype]; decide)
        · rw [streamHandle, hpipe, hconn] at hstr
          cases hstr
          exact flagsRight_fpipe (htype.trans (sys.pipe_type stream hc hpipe))
  · rw [if_pos (.inr rfl)]
    exact .fails_at_once (fun hcreates => hstream hcreates.1) (by decide)

theorem createSlot_ends (hi : i < n) (hf : flags i = 0)
    (hh : handles i = invalidHandle) (hc : c ∈ opts ∨ c = .ignore) :
    SlotEnds sys n i c s flags handles (createSlot sys i s c) := by
  cases c with
  | ignore => exact createSlot_ignore_ends hholds hi hf hh
  | createPipe readable writable stream => exact createSlot_createPipe_ends hholds hi
  | inheritFd fd => exact createSlot_inheritFd_ends hholds hi
  | inheritStream stream =>
    exact createSlot_inheritStream_ends hholds hi (hc.resolve_right nofun)
  | other => exact .asserts id

end

/-! ### All slots -/

/-- The handles in the slots before `i` that have one -/
def heldBefore (handles : ℕ → RawHandle w) (i : ℕ) : List (RawHandle w) :=
  ((List.range i).map handles).filter (· ≠ invalidHandle)

theorem heldBefore_succ (x : Option (Created w)) :
    heldBefore (update handles i (handleOf x)) (i + 1) =
      heldBefore handles i ++ (x.toList.map fun y => y.handle.1) := by
  have hbelow : (range i).map (update handles i (handleOf x)) = (range i).map handles :=
    map_congr_left fun j hj => update_of_ne (mem_range.mp hj).ne _ _
  rw [heldBefore, range_succ, map_append, filter_append, hbelow, map_singleton,
    update_self, heldBefore]
  cases x with
  | none => rw [handleOf, filter_cons_of_neg (by simp)]; rfl
  | some y => rw [handleOf, filter_cons_of_pos (by simpa using y.handle.2)]; rfl

theorem EmptyFrom.heldBefore_eq (h : EmptyFrom n i flags handles) (hi : i ≤ n) :
    heldBefore handles n = heldBefore handles i := by
  induction n, hi using le_induction with
  | base => rfl
  | succ k hk ih =>
    have hlast : handles k = invalidHandle := h.handles k hk (lt_succ_self k)
    have hrest : EmptyFrom k i flags handles :=
      ⟨fun j hij hj => h.flags j hij (lt_succ_of_lt hj),
        fun j hij hj => h.handles j hij (lt_succ_of_lt hj)⟩
    rw [← ih hrest, heldBefore, range_succ, map_append, filter_append,
      map_singleton, hlast, filter_cons_of_neg (by simp), filter_nil, append_nil,
      heldBefore]

theorem EmptyFrom.succ (h : EmptyFrom n i flags handles) (f : UInt8) (x : RawHandle w) :
    EmptyFrom n (i + 1) (update flags i f) (update handles i x) := by
  refine ⟨fun j hij hj => ?_, fun j hij hj => ?_⟩
  · rw [update_of_ne (by omega)]
    exact h.flags j (by omega) hj
  · rw [update_of_ne (by omega)]
    exact h.handles j (by omega) hj

theorem uvStdioDestroy_closes (hholds : Holds s.buffer n flags handles) :
    s.uvStdioDestroy.closes = s.closes ++ heldBefore handles n := by
  have hread : ((range n).filterMap fun i =>
      if h : childStdioHandle w s.buffer i < 256 ^ w then
        some (⟨childStdioHandle w s.buffer i, h⟩ : RawHandle w)
      else none) = (range n).map handles := by
    rw [← filterMap_eq_map]
    refine filterMap_congr fun j hj => ?_
    have hj := hholds.handles j (mem_range.mp hj)
    rw [dif_pos (hj ▸ (handles j).2)]
    exact congrArg some (Subtype.ext hj)
  rw [StdioState.uvStdioDestroy, hholds.count, hread, heldBefore]

/-- How the loop ends from slot `i` on -/
inductive SlotsEnd (sys : StdioSystem w opts) (n i : ℕ) (cs : List (StdioContainer w))
    (flags : ℕ → UInt8) (handles : ℕ → RawHandle w) : Option (ℤ × StdioState w) → Prop
  | asserts (k : ℕ) {c : StdioContainer w} : cs[k]? = some c → ¬Creates sys (i + k) c →
      SlotsEnd sys n i cs flags handles none
  | fails (k : ℕ) {c : StdioContainer w} {e : ℤ} {t : StdioState w} : cs[k]? = some c →
      ¬Creates sys (i + k) c → e ≠ 0 → t.closes.Perm (t.created.map fun x => x.handle.1) →
      t.frees = 1 → SlotsEnd sys n i cs flags handles (some (e, t))
  | fills {t : StdioState w} {flags' : ℕ → UInt8} {handles' : ℕ → RawHandle w} :
      Holds t.buffer n flags' handles' → (∀ j < i, flags' j = flags j ∧ handles' j = handles j) →
      (∀ k c, cs[k]? = some c → Creates sys (i + k) c ∧
        ∃ x, Asks sys (i + k) c x ∧ handles' (i + k) = handleOf x ∧
          (FlagsRight sys (flags' (i + k)) x ↔ ¬PipeFd sys (i + k) c)) →
      t.closes = [] → t.frees = 0 → SlotsEnd sys n i cs flags handles (some (0, t))

theorem createSlots_end {cs : List (StdioContainer w)} (hn : i + cs.length = n)
    (hholds : Holds s.buffer n flags handles) (hempty : EmptyFrom n i flags handles)
    (hcs : ∀ c ∈ cs, c ∈ opts ∨ c = .ignore)
    (hcreated : s.created.map (fun x => x.handle.1) = heldBefore handles i)
    (hcloses : s.closes = []) (hfrees : s.frees = 0) :
    SlotsEnd sys n i cs flags handles (createSlots sys cs i s) := by
  induction cs generalizing i s flags handles with
  | nil => exact .fills hholds (fun _ _ => ⟨rfl, rfl⟩) nofun hcloses hfrees
  | cons c cs ih =>
    rw [length_cons] at hn
    have hi : i < n := by omega
    have hslot : SlotEnds sys n i c s flags handles (createSlot sys i s c) :=
      createSlot_ends hholds hi (hempty.flags i (Nat.le_refl i) hi)
        (hempty.handles i (Nat.le_refl i) hi) (hcs c mem_cons_self)
    rw [createSlots]
    generalize createSlot sys i s c = r at hslot ⊢
    cases hslot with
    | asserts hc => exact .asserts 0 rfl hc
    | @fails e xs hc he =>
      simp only [if_pos he]
      refine .fails 0 rfl hc he ?_ (congrArg Nat.succ hfrees)
      have hdestroy := uvStdioDestroy_closes (s := { s with
        created := s.created ++ xs
        closes := s.closes ++ xs.map fun x => x.handle.1 }) hholds
      rw [hdestroy, hempty.heldBefore_eq hi.le, ← hcreated, hcloses, nil_append]
      exact perm_append_comm.trans (.of_eq map_append.symm)
    | @fills t f x hc ht htcreated htcloses htfrees hasks hflags =>
      have hcreated' : t.created.map (fun x => x.handle.1) =
          heldBefore (update handles i (handleOf x)) (i + 1) := by
        rw [heldBefore_succ, htcreated, map_append, hcreated]
      have hend := ih (by omega) ht (hempty.succ f (handleOf x))
        (fun c' hc' => hcs c' (mem_cons_of_mem c hc')) hcreated' (htcloses.trans hcloses)
        (htfrees.trans hfrees)
      simp only [ne_eq, not_true_eq_false, if_false]
      generalize createSlots sys cs (i + 1) t = r at hend ⊢
      cases hend with
      | asserts k hk hck => exact .asserts (k + 1) hk (by rwa [Nat.add_left_comm, Nat.add_comm])
      | fails k hk hck he hclosed hfreed =>
        exact .fails (k + 1) hk (by rwa [Nat.add_left_comm, Nat.add_comm]) he hclosed hfreed
      | fills hlast hbelow hall hclosed hfreed =>
        refine .fills hlast (fun j hj => ?_) (fun k c' hk => ?_) hclosed hfreed
        · obtain ⟨hjf, hjh⟩ := hbelow j (by omega)
          rw [update_of_ne hj.ne] at hjf hjh
          exact ⟨hjf, hjh⟩
        · cases k with
          | zero =>
            obtain ⟨hif, hih⟩ := hbelow i (lt_succ_self i)
            rw [update_self] at hif hih
            cases hk
            exact ⟨hc, x, hasks, hih, by rwa [Nat.add_zero, hif]⟩
          | succ k =>
            have hk := hall k c' hk
            rwa [Nat.add_assoc, Nat.add_comm 1] at hk

/-! ### The whole block -/

theorem Asks.unique {x y : Option (Created w)} (hx : Asks sys i c x) (hy : Asks sys i c y) :
    x = y := by
  cases hx with
  | nul hi hnul =>
    cases hy with
    | nul _ hnul' => rw [Except.ok.inj (hnul.symm.trans hnul')]
    | none hlt => omega
  | none hlt =>
    cases hy with
    | nul hi _ => omega
    | none _ => rfl
  | pipe hpipe =>
    cases hy with
    | pipe hpipe' => rw [Except.ok.inj (hpipe.symm.trans hpipe')]
  | fd hdup =>
    cases hy with
    | fd hdup' => rw [Except.ok.inj (hdup.symm.trans hdup')]
    | invalidFd _ hdup' _ => exact nomatch hdup.symm.trans hdup'
  | invalidFd _ hdup _ =>
    cases hy with
    | fd hdup' => exact nomatch hdup.symm.trans hdup'
    | invalidFd _ _ _ => rfl
  | stream hdup =>
    cases hy with
    | stream hdup' => rw [Except.ok.inj (hdup.symm.trans hdup')]

theorem inheritable_of_map {r : Except CallError (OpenHandle w)} {source : HandleSource w}
    {x : Created w} (h : (r.map fun h => ⟨h, true, source⟩) = .ok x) : x.inheritable = true := by
  cases r with
  | error e => cases h
  | ok y =>
    cases h
    rfl

theorem uvDuplicateHandle_inheritable {h : RawHandle w} {x : Created w}
    (hx : uvDuplicateHandle sys i h = .ok x) : x.inheritable = true := by
  unfold uvDuplicateHandle at hx
  split at hx
  · cases hx
  · exact inheritable_of_map hx

theorem Asks.inheritable {x : Created w} (h : Asks sys i c (some x)) : x.inheritable = true := by
  cases h with
  | nul _ hx | pipe hx => exact inheritable_of_map hx
  | @fd fd _ hx =>
    unfold uvDuplicateFd at hx
    split at hx
    · cases hx
    · exact uvDuplicateHandle_inheritable hx
  | stream hx => exact uvDuplicateHandle_inheritable hx

/-- A slot holds the inheritable handle that its container asks for, with the flags of its type. -/
def SlotRight (sys : StdioSystem w opts) (buffer : List UInt8) (i : ℕ) (c : StdioContainer w) :
    Prop :=
  ∃ x, Asks sys i c x ∧ (∀ y ∈ x, y.inheritable = true) ∧
    childStdioHandle w buffer i = handleOf x ∧ FlagsRight sys (childStdioCrtFlags buffer i) x

/-- What `uv__stdio_create` should leave -/
structure StdioRight (sys : StdioSystem w opts) (err : ℤ) (s : StdioState w) : Prop where
  size : err = 0 → s.buffer.length = childStdioSize w (max opts.length 3) ∧
    childStdioCount s.buffer = max opts.length 3
  slots : err = 0 → ∀ i c, (slotContainers opts)[i]? = some c → SlotRight sys s.buffer i c
  keeps : err = 0 → s.closes = [] ∧ s.frees = 0
  releases : err ≠ 0 → s.closes.Perm (s.created.map fun x => x.handle.1) ∧ s.frees = 1

theorem length_slotContainers : (slotContainers opts).length = max opts.length 3 := by
  rw [slotContainers, length_append, length_replicate]
  omega

theorem mem_slotContainers (h : c ∈ slotContainers opts) : c ∈ opts ∨ c = .ignore :=
  (mem_append.mp h).imp_right eq_of_mem_replicate

theorem count_eq : (if opts.length < 3 then 3 else opts.length) = max opts.length 3 := by
  split <;> omega

theorem uvStdioCreate_end {block : List UInt8} (hlen : opts.length ≤ 255)
    (hmalloc : sys.malloc (childStdioSize w (max opts.length 3)) = some block) :
    ∃ flags handles r, SlotsEnd sys (max opts.length 3) 0 (slotContainers opts) flags handles r ∧
      uvStdioCreate sys = r.map fun (err, s) => (err, some s) := by
  have hn : max opts.length 3 < 256 ^ 4 := by omega
  obtain ⟨flags, handles, hholds, hempty⟩ :=
    Holds.of_prepopulate (w := w) (sys.malloc_length _ _ hmalloc) hn
  refine ⟨flags, handles, _, createSlots_end (s := ⟨_, [], [], 0⟩) ?_ hholds hempty
    (fun c => mem_slotContainers) rfl rfl rfl, ?_⟩
  · rw [Nat.zero_add, length_slotContainers]
  · rw [uvStdioCreate, if_neg (by omega)]
    simp only [count_eq, hmalloc]

def AllCreated (sys : StdioSystem w opts) : Prop :=
  (∃ block, sys.malloc (childStdioSize w (max opts.length 3)) = some block) ∧
    ∀ i c, (slotContainers opts)[i]? = some c → Creates sys i c

/-- The flags are wrong when an inherited descriptor is a pipe and all handles could be created. -/
theorem uvStdioCreate_right_iff (sys : StdioSystem w opts) :
    (∀ err s, uvStdioCreate sys = some (err, some s) → StdioRight sys err s) ↔
      (opts.length ≤ 255 → AllCreated sys →
        ∀ i c, (slotContainers opts)[i]? = some c → ¬PipeFd sys i c) := by
  constructor
  · rintro hright hlen ⟨⟨block, hmalloc⟩, hcreates⟩ i c hi
    obtain ⟨flags, handles, r, hend, hr⟩ := uvStdioCreate_end hlen hmalloc
    cases hend with
    | asserts k hk hc | fails k hk hc =>
      rw [Nat.zero_add] at hc
      exact absurd (hcreates k _ hk) hc
    | @fills t flags' handles' hholds _ hall =>
      have hlt : i < max opts.length 3 := by
        rw [← length_slotContainers]
        exact (List.getElem?_eq_some_iff.mp hi).1
      obtain ⟨x, hasks, -, -, hflags⟩ := (hright 0 t hr).slots rfl i c hi
      obtain ⟨-, y, hasks', -, hiff⟩ := hall i c hi
      rw [Nat.zero_add] at hasks' hiff
      rw [hasks.unique hasks', hholds.flags i hlt] at hflags
      exact hiff.mp hflags
  · intro hpipes err s hcreate
    by_cases hlen : opts.length ≤ 255
    · cases hmalloc : sys.malloc (childStdioSize w (max opts.length 3)) with
      | none =>
        rw [uvStdioCreate, if_neg (by omega)] at hcreate
        simp only [count_eq, hmalloc] at hcreate
        cases hcreate
      | some block =>
        obtain ⟨flags, handles, r, hend, hr⟩ := uvStdioCreate_end hlen hmalloc
        rw [hr] at hcreate
        cases hend with
        | asserts => cases hcreate
        | fails k hk hc he hclosed hfreed =>
          cases hcreate
          exact ⟨fun h => (he h).elim, fun h => (he h).elim, fun h => (he h).elim,
            fun _ => ⟨hclosed, hfreed⟩⟩
        | @fills t flags' handles' hholds _ hall hclosed hfreed =>
          cases hcreate
          have hcreated : AllCreated sys :=
            ⟨⟨block, hmalloc⟩, fun i c hi => by
              have hc := (hall i c hi).1
              rwa [Nat.zero_add] at hc⟩
          refine ⟨fun _ => ⟨hholds.size, hholds.count⟩, fun _ i c hi => ?_,
            fun _ => ⟨hclosed, hfreed⟩, fun h => (h rfl).elim⟩
          have hlt : i < max opts.length 3 := by
            rw [← length_slotContainers]
            exact (List.getElem?_eq_some_iff.mp hi).1
          obtain ⟨-, x, hasks, hhandle, hiff⟩ := hall i c hi
          rw [Nat.zero_add] at hasks hhandle hiff
          refine ⟨x, hasks, fun y hy => ?_, ?_, ?_⟩
          · cases hy
            exact hasks.inheritable
          · rw [hholds.handles i hlt, hhandle]
          · rw [hholds.flags i hlt]
            exact hiff.mpr (hpipes hlen hcreated i c hi)
    · rw [uvStdioCreate, if_pos (by omega)] at hcreate
      cases hcreate

/-! A child inherits descriptor 3, which is a pipe. -/

def pipeSystem : StdioSystem 8 [.inheritFd 3] where
  malloc size := some (List.replicate size 0)
  nul _ := .ok ⟨⟨0x10, by decide⟩, by decide⟩
  childPipe _ := .error ⟨errorNotSupported, by decide⟩
  osfhandle _ := ⟨0x20, by decide⟩
  duplicate _ h := if h.1 = 0x20 then .ok ⟨⟨0x24, by decide⟩, by decide⟩
    else .error ⟨errorInvalidHandle, by decide⟩
  fileType h := if h.1 = 0x20 ∨ h.1 = 0x24 then .pipe else .char
  lastError _ := 0
  malloc_length size block h := by
    cases h
    exact List.length_replicate
  nul_type i h hnul := by
    cases hnul
    rfl
  childPipe_type i h hpipe := nomatch hpipe
  duplicate_type i h h' hdup := by
    split at hdup
    · rename_i h20
      cases hdup
      exact (if_pos (.inl h20)).symm
    · cases hdup
  tty_type stream h := nomatch List.eq_of_mem_singleton h
  pipe_type stream h := nomatch List.eq_of_mem_singleton h

theorem not_uvStdioCreate_right :
    ¬∀ err s, uvStdioCreate pipeSystem = some (err, some s) → StdioRight pipeSystem err s := by
  intro hright
  have hflags : (uvStdioCreate pipeSystem).map (fun r =>
      (r.1, r.2.map fun s => childStdioCrtFlags s.buffer 0)) = some (0, some (fopen ||| fdev)) := rfl
  obtain ⟨⟨err, s?⟩, hcreate, hr⟩ := Option.map_eq_some_iff.mp hflags
  obtain ⟨rfl, hs⟩ := Prod.mk.inj hr
  obtain ⟨s, rfl, hdev⟩ := Option.map_eq_some_iff.mp hs
  obtain ⟨x, hasks, -, -, hx⟩ := (hright 0 s hcreate).slots rfl 0 (.inheritFd 3) rfl
  cases hasks.unique (.fd rfl)
  exact absurd (hdev.symm.trans (hx.1.mpr rfl)) (by decide)

end LibuvWorks.Win.Stdio
