import LibuvWorks.Lib.Descriptors

/-!
# Starting a process: the descriptors of `uv_spawn` in `unix/process.c`

The parent opens a socket pair for every container that asks for a pipe, then the signal pipe,
and forks. The child connects the descriptors below `stdio_count` one after another, by `dup2`
and `close` in its own table, and keeps the write end of the signal pipe in `error_fd` to
report what fails.
-/
namespace LibuvWorks.Unix.Spawn

variable {φ : Type*}

/-- A `uv_stdio_container_t`, by its flags. -/
inductive StdioContainer where
  | ignore : StdioContainer
  | createPipe (namedPipe : Bool) : StdioContainer
  | inheritFd (fd : ℤ) : StdioContainer
  | inheritStream (streamFd : ℤ) : StdioContainer
  | unexpected : StdioContainer
  deriving DecidableEq

/-- The open files of the child: those of its parent, and those that `uv_spawn` opens. -/
inductive OpenFile (φ : Type*) where
  | inherited (f : φ) : OpenFile φ
  | socket (container : ℕ) (child : Bool) : OpenFile φ
  | signal (write : Bool) : OpenFile φ
  | devNull (writable : Bool) : OpenFile φ

abbrev Table (φ : Type*) := DescriptorTable (OpenFile φ)

/-- The two entries of `pipes[fd]`; a negative entry is `none`. -/
structure Pipe where
  fd : ℕ
  parent : Option ℕ
  child : Option ℕ

def forkTable (parent : DescriptorTable φ) : Table φ :=
  fun k => (parent k).map fun d => ⟨.inherited d.file, d.cloexec⟩

/-! ### The parent -/

/-- `socketpair` and `pipe2` open two descriptors, both with the flag close-on-exec. -/
def openPair (limit : ℕ) (t : Table φ) (first second : OpenFile φ) : Option (ℕ × ℕ × Table φ) := do
  let (a, t) ← t.openFrom limit 0 ⟨first, true⟩
  let (b, t) ← t.openFrom limit 0 ⟨second, true⟩
  return (a, b, t)

/-- Of an inherited descriptor only `-1` is refused; the child tests for a negative one. -/
def inheritEntry (fd : ℤ) : Option (Option ℕ) :=
  if fd = -1 then none else if fd < 0 then some none else some (some fd.toNat)

def uvProcessInitStdio (limit i : ℕ) (t : Table φ) : StdioContainer → Option (Pipe × Table φ)
  | .ignore => some (⟨i, none, none⟩, t)
  | .createPipe namedPipe =>
    if namedPipe then
      (openPair limit t (.socket i false) (.socket i true)).map fun r =>
        (⟨i, some r.1, some r.2.1⟩, r.2.2)
    else none
  | .inheritFd fd | .inheritStream fd =>
    (inheritEntry fd).map fun entry => (⟨i, none, entry⟩, t)
  | .unexpected => none

/-- The containers from number `i` on. -/
def initPipes (limit : ℕ) : ℕ → List StdioContainer → Table φ → Option (List Pipe × Table φ)
  | _, [], t => some ([], t)
  | i, container :: containers, t => do
    let (p, t) ← uvProcessInitStdio limit i t container
    let (ps, t) ← initPipes limit (i + 1) containers t
    return (p :: ps, t)

/-- There are at least three entries; those without a container stay `-1`. -/
def padPipes (ps : List Pipe) : List Pipe :=
  ps ++ (List.range' ps.length (3 - ps.length)).map fun fd => ⟨fd, none, none⟩

/-! ### The child -/

/-- A turn of the first loop: a descriptor whose number is lower than that of its slot is
moved out of the way. The result of a failed call is the table when the child exits. -/
def dupLowFd (limit count : ℕ) (p : Pipe) (t : Table φ) : Except (Table φ) (Pipe × Table φ) :=
  match p.child with
  | none => .ok (p, t)
  | some useFd =>
    if p.fd ≤ useFd then .ok (p, t)
    else
      match t.dupFrom limit count useFd with
      | none => .error t
      | some (k, t) => .ok (⟨p.fd, p.parent, some k⟩, t)

def dupLow (limit count : ℕ) : List Pipe → Table φ → Except (Table φ) (List Pipe × Table φ)
  | [], t => .ok ([], t)
  | p :: ps, t =>
    match dupLowFd limit count p t with
    | .error t => .error t
    | .ok (p, t) =>
      match dupLow limit count ps t with
      | .error t => .error t
      | .ok (ps, t) => .ok (p :: ps, t)

/-- The entry is closed unless it is negative or below `stdio_count`. -/
def closeHigh (count : ℕ) (entry : Option ℕ) (t : Table φ) : Table φ :=
  match entry with
  | none => t
  | some fd => if fd < count then t else t.close fd

def connect (limit count fd useFd : ℕ) (closeFd : Option ℕ) (t : Table φ) :
    Except (Table φ) (Table φ) :=
  match if fd = useFd then some (t.clearCloexec useFd) else t.dup2 limit useFd fd with
  | none => .error t
  | some t => .ok (closeHigh count closeFd t)

/-- A turn of the second loop. -/
def plumb (limit count : ℕ) (p : Pipe) (t : Table φ) : Except (Table φ) (Table φ) :=
  match p.child with
  | some useFd => connect limit count p.fd useFd p.parent t
  | none =>
    if 3 ≤ p.fd then .ok t
    else
      match t.openFrom limit 0 ⟨.devNull (p.fd ≠ 0), false⟩ with
      | none => .error t
      | some (useFd, t) => connect limit count p.fd useFd (some useFd) t

def plumbAll (limit count : ℕ) : List Pipe → Table φ → Except (Table φ) (Table φ)
  | [], t => .ok t
  | p :: ps, t =>
    match plumb limit count p t with
    | .error t => .error t
    | .ok t => plumbAll limit count ps t

def closeUsed (count : ℕ) (ps : List Pipe) (t : Table φ) : Table φ :=
  ps.foldl (fun t p => closeHigh count p.child t) t

/-- The table with which `execvp` is called, or that of the child when it exits before;
`ready` says that `chdir`, `setgid` and `setuid` succeed. -/
def uvProcessChildInit (limit count : ℕ) (ps : List Pipe) (ready : Bool) (t : Table φ) :
    Except (Table φ) (Table φ) :=
  match dupLow limit count ps t with
  | .error t => .error t
  | .ok (ps, t) =>
    match plumbAll limit count ps t with
    | .error t => .error t
    | .ok t => if ready then .ok (closeUsed count ps t) else .error (closeUsed count ps t)

structure Forked (φ : Type*) where
  errorFd : ℕ
  child : Except (Table φ) (Table φ)

/-- The child that `uv_spawn` forks, if it does not fail before. -/
def uvSpawn (limit : ℕ) (parent : DescriptorTable φ) (containers : List StdioContainer)
    (ready : Bool) : Option (Forked φ) := do
  let (ps, t) ← initPipes limit 0 containers (forkTable parent)
  let (_, errorFd, t) ← openPair limit t (.signal false) (.signal true)
  return ⟨errorFd, uvProcessChildInit limit (max containers.length 3) (padPipes ps) ready t⟩

/-- What the parent reads from the signal pipe when `execvp` fails with an error: nothing if
`uv__write_int` writes to another file. -/
def execErrno (t : Table φ) (errorFd errno : ℕ) : Option ℕ :=
  match t.file errorFd with
  | some (.signal true) => some errno
  | _ => none

end LibuvWorks.Unix.Spawn
