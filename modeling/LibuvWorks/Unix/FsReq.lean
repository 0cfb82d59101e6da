import LibuvWorks.Lib.Transition
import Mathlib.Data.Int.Notation

/-!
# File system requests and their memory

A `uv_fs_t` points to copies of its paths and buffers and to a result. A request with a callback is
done by the thread pool and may be cancelled before; one without is done at once. What the system
calls answer is given with each attempt. A step below is a call of one of the `uv_fs_*` functions,
one round of the loop in `uv__fs_work`, or a step of the pool or the loop.
-/

namespace LibuvWorks.Unix

open Transition

/-- `uv_fs_type` -/
inductive FsType where
  | open_
  | close
  | read
  | write
  | sendfile
  | stat
  | lstat
  | fstat
  | ftruncate
  | utime
  | futime
  | access
  | chmod
  | fchmod
  | fsync
  | fdatasync
  | unlink
  | rmdir
  | mkdir
  | mkdtemp
  | rename
  | scandir
  | link
  | symlink
  | readlink
  | chown
  | fchown
  | realpath
  deriving DecidableEq

namespace FsType

def hasBufs : FsType → Bool
  | .read | .write => true
  | _ => false

/-- A request that says something of a file in `statbuf`. -/
def isStat : FsType → Bool
  | .stat | .fstat | .lstat => true
  | _ => false

/-- A request for an open file. -/
def hasFile : FsType → Bool
  | .close | .read | .write | .sendfile | .fstat | .ftruncate | .futime | .fchmod | .fsync
  | .fdatasync | .fchown => true
  | _ => false

end FsType

inductive FsPtr where
  | null
  | user
  | statbuf
  | bufsml
  | block (n : ℕ)
  deriving DecidableEq

/-- Where a request is: it was never made, its function returned at once for want of memory, it is
queued for the pool, it is worked on, it has been worked on, its callback was called or its function
returned, or it was cleaned up since. -/
inductive FsPhase where
  | unused
  | refused
  | queued
  | working
  | worked (status : ℤ)
  | answered
  | clean
  deriving DecidableEq

def FsPhase.isWorked : FsPhase → Bool
  | .worked _ => true
  | _ => false

/-- What an attempt meets with: the result and the error of the system call, whether memory could
be allocated, the results of the calls that read or write, and whether an empty directory has an
array of entries all the same. -/
structure FsAttempt where
  r : ℤ
  errno : ℤ
  malloc : Bool
  results : ℕ → ℤ
  emptyDents : Bool

/-- A `uv_fs_t`, with the entries that its array of them has, how many blocks were allocated so far
and those that were freed. `bufsOff` is how far `bufs` has moved. -/
structure FsReq where
  fsType : FsType
  cb : Bool
  result : ℤ
  ptr : FsPtr
  path : FsPtr
  newPath : FsPtr
  bufs : FsPtr
  bufsOff : ℕ
  nbufs : ℕ
  dents : List ℕ
  phase : FsPhase
  allocated : ℕ
  frees : List ℕ

namespace FsReq

def eintr : ℤ := 4

def enomem : ℤ := 12

def ecanceled : ℤ := 125

inductive Event where
  | submit (t : FsType) (cb bufsNull alloc : Bool) (nbufs : ℕ)
  | begin
  | cancel
  | attempt (a : FsAttempt)
  | done
  | scandirNext
  | cleanup

variable (iovmax : ℕ) (s : FsReq)

/-- Memory that can be read. -/
def readable : FsPtr → Bool
  | .null => false
  | .user | .statbuf | .bufsml => true
  | .block n => n ∉ s.frees ∧ n < s.allocated

/-- `uv__free`, or `free` for what the system has allocated; only blocks can be freed, and once. -/
def free : FsPtr → Option FsReq
  | .null => some s
  | .block n => if s.readable (.block n) then some { s with frees := n :: s.frees } else none
  | _ => none

/-! ### Submission -/

def init (t : FsType) (cb : Bool) : FsReq :=
  { s with fsType := t, result := 0, ptr := .null, path := .null, newPath := .null, cb := cb }

/-- `POST`, up to the work -/
def post : FsReq := { s with phase := if s.cb then .queued else .working }

def submitFile (t : FsType) (cb : Bool) : FsReq := (s.init t cb).post

/-- `PATH`; the function returns if there is no memory -/
def submitPath (t : FsType) (cb alloc : Bool) : FsReq :=
  let s := s.init t cb
  if cb = false then { s with path := .user }.post
  else if alloc then
    { s with path := .block s.allocated, allocated := s.allocated + 1 }.post
  else { s with phase := .refused }

/-- `PATH2`; both paths are in one block -/
def submitPath2 (t : FsType) (cb alloc : Bool) : FsReq :=
  let s := s.init t cb
  if cb = false then { s with path := .user, newPath := .user }.post
  else if alloc then
    { s with
      path := .block s.allocated
      newPath := .block s.allocated
      allocated := s.allocated + 1 }.post
  else { s with phase := .refused }

/-- `uv_fs_mkdtemp` always copies its template. -/
def uvFsMkdtemp (cb alloc : Bool) : FsReq :=
  let s := s.init .mkdtemp cb
  if alloc then
    { s with path := .block s.allocated, allocated := s.allocated + 1 }.post
  else { s with phase := .refused }

/-- `uv_fs_read` and `uv_fs_write`; `bufsml` has room for four buffers -/
def submitBufs (t : FsType) (cb bufsNull alloc : Bool) (nbufs : ℕ) : FsReq :=
  if bufsNull = true ∨ nbufs = 0 then s
  else
    let s : FsReq := { s.init t cb with nbufs := nbufs, bufs := .bufsml, bufsOff := 0 }
    if nbufs ≤ 4 then s.post
    else if alloc then
      { s with bufs := .block s.allocated, allocated := s.allocated + 1 }.post
    else { s with bufs := .null, phase := .refused }

/-- The functions `uv_fs_*`; the arguments that only the system calls look at are left out. -/
def submit (t : FsType) (cb bufsNull alloc : Bool) (nbufs : ℕ) : FsReq :=
  match t with
  | .access => s.submitPath .access cb alloc
  | .chmod => s.submitPath .chmod cb alloc
  | .chown => s.submitPath .chown cb alloc
  | .close => s.submitFile .close cb
  | .fchmod => s.submitFile .fchmod cb
  | .fchown => s.submitFile .fchown cb
  | .fdatasync => s.submitFile .fdatasync cb
  | .fstat => s.submitFile .fstat cb
  | .fsync => s.submitFile .fsync cb
  | .ftruncate => s.submitFile .ftruncate cb
  | .futime => s.submitFile .futime cb
  | .lstat => s.submitPath .lstat cb alloc
  | .link => s.submitPath2 .link cb alloc
  | .mkdir => s.submitPath .mkdir cb alloc
  | .mkdtemp => s.uvFsMkdtemp cb alloc
  | .open_ => s.submitPath .open_ cb alloc
  | .read => s.submitBufs .read cb bufsNull alloc nbufs
  | .scandir => s.submitPath .scandir cb alloc
  | .readlink => s.submitPath .readlink cb alloc
  | .realpath => s.submitPath .realpath cb alloc
  | .rename => s.submitPath2 .rename cb alloc
  | .rmdir => s.submitPath .rmdir cb alloc
  | .sendfile => s.submitFile .sendfile cb
  | .stat => s.submitPath .stat cb alloc
  | .symlink => s.submitPath2 .symlink cb alloc
  | .unlink => s.submitPath .unlink cb alloc
  | .utime => s.submitPath .utime cb alloc
  | .write => s.submitBufs .write cb bufsNull alloc nbufs

/-! ### Work -/

/-- What the loop of `uv__fs_buf_iter` leaves: how far `bufs` has moved, `nbufs`, and the total. -/
structure BufWalk where
  off : ℕ
  nbufs : ℕ
  total : ℤ

/-- The loop of `uv__fs_buf_iter`, where `left` buffers are left and the `i`-th call is next; there
are at most `fuel` of them. -/
def bufLoop (iovmax : ℕ) (results : ℕ → ℤ) :
    (fuel i left off nbufs : ℕ) → (total : ℤ) → BufWalk
  | 0, _, _, off, nbufs, total => ⟨off, nbufs, total⟩
  | fuel + 1, i, left, off, nbufs, total =>
    if left = 0 then ⟨off, nbufs, total⟩
    else
      let n := min left iovmax
      if results i ≤ 0 then ⟨off, n, if total = 0 then results i else total⟩
      else bufLoop iovmax results fuel (i + 1) (left - n) (off + n) n (total + results i)

/-- `uv__fs_buf_iter`, with the value that it returns; `bufs` is freed unless the call was
interrupted -/
def uvFsBufIter (a : FsAttempt) : Option (FsReq × ℤ) :=
  if s.readable s.bufs = false then none
  else
    let w := bufLoop iovmax a.results s.nbufs 0 s.nbufs s.bufsOff s.nbufs 0
    if a.errno = eintr ∧ w.total = -1 then
      some ({ s with bufsOff := w.off, nbufs := w.nbufs }, w.total)
    else if s.bufsOff ≠ 0 then none
    else
      (if s.bufs = .bufsml then some s else s.free s.bufs).map fun s =>
        ({ s with bufs := .null, nbufs := 0 }, w.total)

/-- `uv__fs_scandir`, where `nbufs` becomes the index of the next entry -/
def uvFsScandir (a : FsAttempt) : Option (FsReq × ℤ) :=
  let s : FsReq := { s with nbufs := 0 }
  if s.readable s.path = false then none
  else if a.r = 0 then
    let s : FsReq := { s with ptr := .null }
    some (if a.emptyDents then
      { s with allocated := s.allocated + 1, frees := s.allocated :: s.frees } else s, a.r)
  else if a.r < 0 then some (s, a.r)
  else
    some ({ s with
      ptr := .block s.allocated
      dents := List.range' (s.allocated + 1) a.r.toNat
      allocated := s.allocated + 1 + a.r.toNat }, a.r)

/-- `uv__fs_readlink` and `uv__fs_realpath` -/
def uvFsReadlink (a : FsAttempt) : Option (FsReq × ℤ) :=
  if s.readable s.path = false then none
  else if a.malloc = false then some (s, -1)
  else
    let buf := s.allocated
    let s : FsReq := { s with allocated := s.allocated + 1 }
    if a.r = -1 then some ({ s with frees := buf :: s.frees }, -1)
    else some ({ s with ptr := .block buf }, 0)

/-- The action for a request, with the value that it returns. -/
def action (a : FsAttempt) : Option (FsReq × ℤ) :=
  match s.fsType with
  | .read | .write => s.uvFsBufIter iovmax a
  | .scandir => s.uvFsScandir a
  | .readlink | .realpath => s.uvFsReadlink a
  | t => if t.hasFile = false ∧ s.readable s.path = false then none else some (s, a.r)

def errnoOf (a : FsAttempt) : ℤ :=
  if (s.fsType = .readlink ∨ s.fsType = .realpath) ∧ a.malloc = false then enomem else a.errno

/-- The end of `uv__fs_work` -/
def finish (r errno : ℤ) : FsReq :=
  { s with
    result := if r = -1 then -errno else r
    ptr := if r = 0 ∧ s.fsType.isStat = true then .statbuf else s.ptr
    phase := if s.cb then .worked 0 else .answered }

/-- A round of the loop in `uv__fs_work` -/
def uvFsWork (a : FsAttempt) : Option FsReq :=
  (s.action iovmax a).map fun (t, r) =>
    if r = -1 ∧ s.errnoOf a = eintr ∧ s.fsType ≠ .close then t else t.finish r (s.errnoOf a)

/-- `uv__work_cancel`; a request that was cancelled already can be cancelled again, and one that
the pool has begun with cannot -/
def uvCancel : FsReq := if s.phase = .queued then { s with phase := .worked (-ecanceled) } else s

/-- `uv__fs_done`, up to the call of the callback -/
def uvFsDone : Option FsReq :=
  match s.phase with
  | .worked status =>
    if status = -ecanceled then
      if s.result ≠ 0 then none else some { s with result := -ecanceled, phase := .answered }
    else some { s with phase := .answered }
  | _ => none

/-! ### Afterwards -/

def freeDent (i : ℕ) : Option FsReq :=
  if s.readable s.ptr = false then none else s.dents[i]?.bind fun d => s.free (.block d)

/-- `uv_fs_scandir_next` frees the entry that it gave before. -/
def uvFsScandirNext : Option FsReq :=
  (if 0 < s.nbufs then s.freeDent (s.nbufs - 1) else some s).bind fun s =>
    if (s.nbufs : ℤ) = s.result then (s.free s.ptr).map fun s => { s with ptr := .null }
    else if s.readable s.ptr = false then none
    else s.dents[s.nbufs]?.map fun _ => { s with nbufs := s.nbufs + 1 }

def uvFsScandirCleanup : Option FsReq :=
  let first := if 0 < s.nbufs ∧ (s.nbufs : ℤ) ≠ s.result then s.nbufs - 1 else s.nbufs
  let count := s.result.toNat - first
  ((List.range' first count).foldlM freeDent s).bind fun s =>
    (s.free s.ptr).map fun s => { s with ptr := .null, nbufs := first + count }

def uvFsReqCleanup : Option FsReq :=
  (if s.path ≠ .null ∧ (s.cb = true ∨ s.fsType = .mkdtemp) then s.free s.path else some s).bind
    fun s =>
      let s : FsReq := { s with path := .null, newPath := .null }
      (if s.fsType = .scandir ∧ s.ptr ≠ .null then s.uvFsScandirCleanup else some s).bind fun s =>
        (if s.ptr ≠ .statbuf then s.free s.ptr else some s).map fun s =>
          { s with ptr := .null, phase := .clean }

def next : Event → Option FsReq
  | .submit t cb bufsNull alloc nbufs => some (s.submit t cb bufsNull alloc nbufs)
  | .begin => some { s with phase := .working }
  | .cancel => some s.uvCancel
  | .attempt a => s.uvFsWork iovmax a
  | .done => s.uvFsDone
  | .scandirNext => s.uvFsScandirNext
  | .cleanup => s.uvFsReqCleanup

/-- A request is made anew when it is cleaned up. It can be cancelled as long as its callback was
not called, and is cleaned up after that, as often as one likes; before, the entries of a directory
may be asked for until there are no more. -/
def Enabled : Event → Prop
  | .submit .. => s.phase = .unused ∨ s.phase = .clean
  | .begin => s.phase = .queued
  | .cancel => s.cb = true ∧
    (s.phase = .queued ∨ s.phase = .working ∨ s.phase.isWorked = true)
  | .attempt a => s.phase = .working ∧ -1 ≤ a.r
  | .done => s.phase.isWorked = true
  | .scandirNext => s.phase = .answered ∧ s.fsType = .scandir ∧ 0 ≤ s.result ∧
    (s.ptr = .null → s.result = 0)
  | .cleanup => s.phase = .answered ∨ s.phase = .refused ∨ s.phase = .clean

instance : DecidablePred s.Enabled := fun e => by
  cases e <;> unfold Enabled <;> infer_instance

def step (e : Event) : Option FsReq := if s.Enabled e then s.next iovmax e else none

def unused (junk : FsReq) : FsReq := { junk with phase := .unused, allocated := 0, frees := [] }

abbrev Step (s : FsReq) (e : Event) (t : FsReq) : Prop := s.step iovmax e = some t

end FsReq

end LibuvWorks.Unix
