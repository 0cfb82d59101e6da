import LibuvWorks.Lib.Custody
import LibuvWorks.Win.TcpBind
import LibuvWorks.Win.WatchedPath

/-!
# Failing to start a watch on Windows

`uv_fs_event_start` with what it allocates. The blocks and the directory handles are numbered in the
order in which they are allocated and opened, and what is freed and closed is recorded. Running out
of memory ends the program.
-/

namespace LibuvWorks.Win.FsEventStart

open Custody WatchedPath List Option

/-- What `GetLastError` returns behind a call that failed -/
abbrev SysError := { e : ℤ // e ≠ 0 }

/-- A `uv_fs_event_t`: where it points to, or `none` for `NULL` and `INVALID_HANDLE_VALUE` -/
structure FsEventHandle where
  active : Bool
  reqPending : Bool
  dirHandle : Option ℕ
  path : Option ℕ
  filew : Option ℕ
  shortFilew : Option ℕ
  dirw : Option ℕ
  buffer : Option ℕ

/-- The handle, how many blocks were allocated and handles opened, and what was freed and closed -/
structure Watch where
  handle : FsEventHandle
  blocks : ℕ
  frees : List ℕ
  opened : ℕ
  closes : List ℕ

/-- What the calls in `uv_fs_event_start` return. `convert` is the path in UTF-16, and `attributes`
says whether it is a directory. `uv_split_path` is called for the path and for the short path. -/
structure StartCalls where
  convert : Except SysError (List ℕ)
  attributes : Except SysError Bool
  shortPath : Except SysError (List ℕ)
  splitPath : SplitCalls
  splitShort : SplitCalls
  splitError : SysError
  createFile : Except SysError Unit
  completionPort : Except SysError Unit
  readChanges : Except SysError Unit

/-- What `uv_split_path` returns, the blocks of `*dir` and `*file`, and what it leaves -/
structure Split where
  result : ℤ
  dir : Option ℕ
  file : Option ℕ
  after : Watch

namespace Watch

variable (s : Watch)

def free (p : Option ℕ) : Watch := { s with frees := p.toList ++ s.frees }

/-- `uv_fs_event_init` -/
def init : Watch where
  handle := ⟨false, false, none, none, none, none, none, none⟩
  blocks := 0
  frees := []
  opened := 0
  closes := []

/-- `uv_fs_event_start` from `error` on -/
def startError (pathw : Option ℕ) (lastError : SysError) : ℤ × Watch :=
  let h := s.handle
  let s := (((s.free h.path).free h.filew).free h.shortFilew).free pathw
  let s := { s with closes := h.dirHandle.toList ++ s.closes }.free h.buffer
  (uvTranslateSysError lastError,
    { s with
      handle := { h with
        path := none
        filew := none
        shortFilew := none
        dirHandle := none
        buffer := none } })

/-- `if (!handle->buffer) handle->buffer = uv__malloc(…)` -/
def ensureBuffer : Watch :=
  if s.handle.buffer.isSome then s
  else { s with handle := { s.handle with buffer := some s.blocks }, blocks := s.blocks + 1 }

/-- `uv_fs_event_start` from `CreateFileW` on -/
def watchDirectory (calls : StartCalls) (dir pathw : Option ℕ) : ℤ × Watch :=
  match calls.createFile with
  | .error e => (s.free dir).startError pathw e
  | .ok () =>
    let s : Watch :=
      { s.free dir with
        handle := { s.handle with dirHandle := some s.opened }
        opened := s.opened + 1 }
    match calls.completionPort with
    | .error e => s.startError pathw e
    | .ok () =>
      let s := s.ensureBuffer
      match calls.readChanges with
      | .error e => s.startError pathw e
      | .ok () => (0, { s with handle := { s.handle with reqPending := true } })

/-- `uv_split_path` with what it allocates: `*dir`, which it frees when it fails, and `*file` -/
def splitPath (calls : SplitCalls) (wantsDir : Bool) (filename : List ℕ) : Split :=
  let r := uvSplitPath calls wantsDir filename
  let dir := if wantsDir then some s.blocks else none
  let s : Watch := { s with blocks := s.blocks + dir.toList.length }
  if r.result ≠ 0 then ⟨r.result, none, none, s.free dir⟩
  else
    let file := if r.file.isSome then some s.blocks else none
    ⟨r.result, dir, file, { s with blocks := s.blocks + file.toList.length }⟩

/-- `uv_fs_event_start` for a file, whose path is the block `pathw` -/
def watchFile (calls : StartCalls) (pathw : ℕ) (filename : List ℕ) : ℤ × Watch :=
  match calls.shortPath with
  | .error e => s.startError (some pathw) e
  | .ok shortPath =>
    let r := s.splitPath calls.splitPath true filename
    if r.result ≠ 0 then r.after.startError (some pathw) calls.splitError
    else
      let s : Watch := { r.after with handle := { r.after.handle with filew := r.file } }
      let r' := s.splitPath calls.splitShort false shortPath
      if r'.result ≠ 0 then r'.after.startError (some pathw) calls.splitError
      else
        let s : Watch := { r'.after with handle := { r'.after.handle with shortFilew := r'.file } }
        (s.free (some pathw)).watchDirectory calls r.dir none

def uvFsEventStart (calls : StartCalls) : ℤ × Watch :=
  if s.handle.active then (uvEinval, s)
  else
    let path := s.blocks
    let pathw := s.blocks + 1
    let s : Watch :=
      { s with
        handle := { s.handle with active := true, path := some path }
        blocks := s.blocks + 2 }
    match calls.convert with
    | .error e => (uvTranslateSysError e, s)
    | .ok filename =>
      match calls.attributes with
      | .error e => s.startError (some pathw) e
      | .ok true =>
        { s with handle := { s.handle with dirw := some pathw } }.watchDirectory calls none
          (some pathw)
      | .ok false => s.watchFile calls pathw filename

/-- `uv_fs_event_stop`; it returns 0. -/
def uvFsEventStop : Watch :=
  if s.handle.active then
    let h := s.handle
    let s := { s with closes := h.dirHandle.toList ++ s.closes }
    let s := (((s.free h.filew).free h.shortFilew).free h.path).free h.dirw
    { s with
      handle := { h with
        active := false
        dirHandle := none
        filew := none
        shortFilew := none
        path := none
        dirw := none } }
  else s

/-! ### What a call leaves -/

variable {s} {calls : StartCalls} {dir pathw : Option ℕ} {e : SysError} {rs : List ℕ} {r : Split}
  {split : SplitCalls} {filename : List ℕ} {n : ℕ}

def pointsTo (h : FsEventHandle) : List ℕ :=
  h.path.toList ++ h.filew.toList ++ h.shortFilew.toList ++ h.dirw.toList ++ h.buffer.toList

/-- What was not freed is what the handle points to and the blocks `rs`; what was not closed is the
handle of the directory. -/
structure Owns (s : Watch) (rs : List ℕ) : Prop where
  blocks : Accounts s.blocks s.frees [] (pointsTo s.handle ++ rs)
  handles : Accounts s.opened s.closes [] s.handle.dirHandle.toList

/-- A handle that watches nothing. It may keep the buffer of an earlier watch. -/
structure Idle (s : Watch) : Prop where
  active : s.handle.active = false
  dirHandle : s.handle.dirHandle = none
  path : s.handle.path = none
  filew : s.handle.filew = none
  shortFilew : s.handle.shortFilew = none
  dirw : s.handle.dirw = none
  owns : s.Owns []

/-- Nothing is left of a watch; each block was freed once, and each handle closed once. -/
structure Released (s : Watch) : Prop where
  dirHandle : s.handle.dirHandle = none
  path : s.handle.path = none
  filew : s.handle.filew = none
  shortFilew : s.handle.shortFilew = none
  dirw : s.handle.dirw = none
  buffer : s.handle.buffer = none
  blocks : Accounts s.blocks s.frees [] []
  handles : Accounts s.opened s.closes [] []

/-- The handle is as one that has been initialised, and all that was allocated is freed. -/
structure Restored (s : Watch) : Prop where
  inactive : s.handle.active = false
  released : s.Released

theorem idle_init : Idle init := ⟨rfl, rfl, rfl, rfl, rfl, rfl, .nil, .nil⟩

theorem Owns.free {p : Option ℕ} (h : s.Owns (p.toList ++ rs)) : (s.free p).Owns rs := by
  refine ⟨h.blocks.exchange fun r => ?_, h.handles⟩
  simp only [Watch.free, count_append]
  omega

theorem Owns.malloc (h : s.Owns rs) : { s with blocks := s.blocks + 1 }.Owns (s.blocks :: rs) :=
  ⟨h.blocks.acquire.perm perm_middle.symm, h.handles⟩

theorem startError_released (h : s.Owns pathw.toList) (hdirw : s.handle.dirw = none) :
    (s.startError pathw e).2.Released := by
  refine ⟨rfl, rfl, rfl, rfl, hdirw, rfl, h.blocks.exchange fun r => ?_,
    h.handles.exchange fun r => ?_⟩
  · simp only [pointsTo, hdirw, startError, Watch.free, count_append, toList_none,
      count_nil]
    omega
  · simp only [startError, Watch.free, count_append, count_nil]
    omega

theorem ensureBuffer_owns (h : s.Owns rs) : s.ensureBuffer.Owns rs := by
  unfold ensureBuffer
  split_ifs with hbuffer
  · exact h
  · have hnone : s.handle.buffer = none := not_isSome_iff_eq_none.mp hbuffer
    refine ⟨h.blocks.acquire.exchange fun r => ?_, h.handles⟩
    simp only [pointsTo, hnone, toList_none, toList_some, count_append,
      count_cons, count_nil]
    omega

theorem ensureBuffer_dirw : s.ensureBuffer.handle.dirw = s.handle.dirw := by
  unfold ensureBuffer
  split_ifs <;> rfl

theorem openDirectory_owns (h : s.Owns rs) (hdir : s.handle.dirHandle = none) :
    { s with
      handle := { s.handle with dirHandle := some s.opened }
      opened := s.opened + 1 }.Owns rs := by
  refine ⟨h.blocks, ?_⟩
  have hhandles := h.handles.acquire
  rwa [hdir] at hhandles

theorem watchDirectory_released (h : s.Owns (dir.toList ++ pathw.toList))
    (hdir : s.handle.dirHandle = none) (hdirw : s.handle.dirw = none)
    (hfails : (s.watchDirectory calls dir pathw).1 ≠ 0) :
    (s.watchDirectory calls dir pathw).2.Released := by
  unfold watchDirectory at hfails ⊢
  cases hcreate : calls.createFile with
  | error e => exact startError_released h.free hdirw
  | ok =>
    have hopen := openDirectory_owns h.free hdir
    cases hport : calls.completionPort with
    | error e => exact startError_released hopen hdirw
    | ok =>
      cases hread : calls.readChanges with
      | error e => exact startError_released (ensureBuffer_owns hopen) (ensureBuffer_dirw.trans hdirw)
      | ok =>
        rw [hcreate, hport, hread] at hfails
        exact absurd rfl hfails

theorem splitPath_owns (h : s.Owns rs) (split : SplitCalls) (wantsDir : Bool)
    (filename : List ℕ) (hr : s.splitPath split wantsDir filename = r) :
    r.after.Owns (r.file.toList ++ (r.dir.toList ++ rs)) ∧ r.after.handle = s.handle := by
  subst hr
  unfold splitPath
  cases wantsDir with
  | false =>
    simp only [Bool.false_eq_true, if_false]
    split_ifs
    · exact ⟨h, rfl⟩
    · exact ⟨h.malloc, rfl⟩
    · exact ⟨h, rfl⟩
  | true =>
    have hdir := h.malloc
    simp only [if_true]
    split_ifs
    · exact ⟨Owns.free (p := some s.blocks) hdir, rfl⟩
    · exact ⟨hdir.malloc, rfl⟩
    · exact ⟨hdir, rfl⟩

theorem splitPath_result (split : SplitCalls) (wantsDir : Bool) (filename : List ℕ) :
    (s.splitPath split wantsDir filename).result =
      (uvSplitPath split wantsDir filename).result := by
  unfold splitPath
  dsimp only
  split_ifs <;> rfl

theorem splitPath_failed {wantsDir : Bool}
    (hr : s.splitPath split wantsDir filename = r) (hfails : r.result ≠ 0) :
    r.file = none ∧ r.dir = none := by
  subst hr
  rw [splitPath_result] at hfails
  unfold splitPath
  dsimp only
  rw [if_pos hfails]
  exact ⟨rfl, rfl⟩

theorem splitPath_file
    (hr : s.splitPath split false filename = r) : r.result = 0 ∧ r.dir = none := by
  have hresult : (uvSplitPath split false filename).result = 0 :=
    uvSplitPath_result_eq_zero_iff.mpr (.inl rfl)
  subst hr
  refine ⟨(splitPath_result ..).trans hresult, ?_⟩
  unfold splitPath
  dsimp only
  rw [if_neg (not_not.mpr hresult)]
  rfl

theorem startError_ne_zero : (s.startError pathw e).1 ≠ 0 :=
  Int.ne_of_lt (uvTranslateSysError_neg e.property)

theorem ensureBuffer_active : s.ensureBuffer.handle.active = s.handle.active := by
  unfold ensureBuffer
  split_ifs <;> rfl

theorem watchDirectory_active :
    (s.watchDirectory calls dir pathw).2.handle.active = s.handle.active := by
  unfold watchDirectory
  cases calls.createFile with
  | error e => rfl
  | ok =>
    cases calls.completionPort with
    | error e => rfl
    | ok => cases calls.readChanges <;> exact ensureBuffer_active

/-- The calls of `watchDirectory` succeed. -/
def Opens (calls : StartCalls) : Prop :=
  calls.createFile = .ok () ∧ calls.completionPort = .ok () ∧ calls.readChanges = .ok ()

theorem watchDirectory_eq_zero_iff : (s.watchDirectory calls dir pathw).1 = 0 ↔ Opens calls := by
  unfold watchDirectory Opens
  cases calls.createFile with
  | error e => exact iff_of_false startError_ne_zero nofun
  | ok =>
    cases calls.completionPort with
    | error e => exact iff_of_false startError_ne_zero (nofun ∘ And.left ∘ And.right)
    | ok =>
      cases calls.readChanges with
      | error e => exact iff_of_false startError_ne_zero (nofun ∘ And.right ∘ And.right)
      | ok => exact iff_of_true rfl ⟨rfl, rfl, rfl⟩

theorem watchDirectory_dirw :
    (s.watchDirectory calls dir pathw).2.handle.dirw = s.handle.dirw := by
  unfold watchDirectory
  cases calls.createFile with
  | error e => rfl
  | ok =>
    cases calls.completionPort with
    | error e => rfl
    | ok => cases calls.readChanges <;> exact ensureBuffer_dirw

theorem watchDirectory_owns (h : s.Owns (dir.toList ++ rs)) (hdir : s.handle.dirHandle = none)
    (hopens : Opens calls) : (s.watchDirectory calls dir pathw).2.Owns rs := by
  obtain ⟨hcreate, hport, hread⟩ := hopens
  have howns := ensureBuffer_owns (openDirectory_owns h.free hdir)
  unfold watchDirectory
  rw [hcreate, hport, hread]
  exact { howns with }

/-- The calls of `watchFile` succeed. -/
def Names (calls : StartCalls) (filename : List ℕ) : Prop :=
  (∃ shortPath, calls.shortPath = .ok shortPath) ∧
    (HasSep filename.tail ∨ calls.splitPath.currentDirectory ≠ none)

structure Naming (s : Watch) (rs : List ℕ) : Prop where
  active : s.handle.active = true
  dirHandle : s.handle.dirHandle = none
  dirw : s.handle.dirw = none
  owns : s.Owns rs

theorem splitPath_eq_zero_iff :
    (s.splitPath split true filename).result = 0 ↔
      HasSep filename.tail ∨ split.currentDirectory ≠ none := by
  rw [splitPath_result, uvSplitPath_result_eq_zero_iff]
  exact ⟨fun h => h.resolve_left nofun, .inr⟩

/-- The names of a file are found and its directory is opened, or nothing is kept but the path. -/
theorem watchFile_cases (h : s.Naming [n])
    (hfilew : s.handle.filew = none) (hshort : s.handle.shortFilew = none) :
    (¬Names calls filename ∧ ∃ (t : Watch) (e : SysError), t.Naming [n] ∧
      s.watchFile calls n filename = t.startError (some n) e) ∨
    (Names calls filename ∧ ∃ (t : Watch) (dir : Option ℕ), t.Naming (dir.toList ++ []) ∧
      s.watchFile calls n filename = t.watchDirectory calls dir none) := by
  obtain ⟨hactive, hdir, hdirw, howns⟩ := h
  unfold watchFile
  cases hpath : calls.shortPath with
  | error e =>
    refine .inl ⟨?_, s, e, ⟨hactive, hdir, hdirw, howns⟩, rfl⟩
    rintro ⟨⟨shortPath, hshortPath⟩, -⟩
    exact nomatch hpath.symm.trans hshortPath
  | ok shortPath =>
    dsimp only
    generalize hr : s.splitPath calls.splitPath true filename = r
    have hresult : r.result = 0 ↔
        HasSep filename.tail ∨ calls.splitPath.currentDirectory ≠ none := by
      rw [← hr]
      exact splitPath_eq_zero_iff
    obtain ⟨hsplit, hhandle⟩ := splitPath_owns howns _ _ _ hr
    split_ifs with hfails hfails'
    · obtain ⟨hfile, hdir'⟩ := splitPath_failed hr hfails
      rw [hfile, hdir'] at hsplit
      rw [← hhandle] at hactive hdir hdirw
      exact .inl ⟨fun hnames => hfails (hresult.mpr hnames.2), r.after, calls.splitError,
        ⟨hactive, hdir, hdirw, hsplit⟩, rfl⟩
    · exact absurd (splitPath_file rfl).1 hfails'
    · have hfilew' : { r.after with
          handle := { r.after.handle with filew := r.file } }.Owns (r.dir.toList ++ [n]) := by
        refine ⟨hsplit.blocks.exchange fun b => ?_, hsplit.handles⟩
        simp only [pointsTo, hhandle, hfilew, count_append, toList_none, count_nil]
        omega
      generalize hr' : splitPath _ calls.splitShort false shortPath = r'
      obtain ⟨hsplit', hhandle'⟩ := splitPath_owns hfilew' _ _ _ hr'
      have hfinal : { r'.after with
          handle := { r'.after.handle with shortFilew := r'.file } }.Owns
            ((some n).toList ++ (r.dir.toList ++ [])) := by
        refine ⟨hsplit'.blocks.exchange fun b => ?_, hsplit'.handles⟩
        simp only [pointsTo, hhandle', hhandle, hshort, (splitPath_file hr').2, count_append,
          toList_none, toList_some, count_nil]
        omega
      have hsame : r'.after.handle = { s.handle with filew := r.file } := by
        rw [hhandle', hhandle]
      have hnames : Names calls filename :=
        ⟨⟨shortPath, hpath⟩, hresult.mp (not_not.mp hfails)⟩
      refine .inr ⟨hnames, _, r.dir, ⟨?_, ?_, ?_, hfinal.free⟩, rfl⟩
      · exact (congrArg FsEventHandle.active hsame).trans hactive
      · exact (congrArg FsEventHandle.dirHandle hsame).trans hdir
      · exact (congrArg FsEventHandle.dirw hsame).trans hdirw

theorem Idle.begin (h : s.Idle) : Naming { s with
    handle := { s.handle with active := true, path := some s.blocks }
    blocks := s.blocks + 2 } [s.blocks + 1] := by
  refine ⟨rfl, h.dirHandle, h.dirw, ?_, h.owns.handles⟩
  refine h.owns.blocks.acquire.acquire.exchange fun b => ?_
  simp only [pointsTo, h.path, count_append, count_cons, toList_some,
    toList_none, count_nil]
  omega

/-- No call fails that `uv_fs_event_start` makes. -/
def Succeeds (calls : StartCalls) : Prop :=
  ∃ filename isDir, calls.convert = .ok filename ∧ calls.attributes = .ok isDir ∧
    (isDir = false → Names calls filename) ∧ Opens calls

/-- How a start ends: it succeeds and `ok` holds, or it fails with an active handle, and releases
everything else where `cleans` holds. -/
def Ends (ok cleans : Prop) (r : ℤ × Watch) : Prop :=
  (ok ∧ r.1 = 0 ∧ r.2.Owns []) ∨
    (¬ok ∧ r.1 ≠ 0 ∧ r.2.handle.active = true ∧ (r.2.Released ↔ cleans))

theorem Naming.watchDirectory_ends (h : s.Naming [n]) : Ends (Opens calls) False
    (watchDirectory { s with handle := { s.handle with dirw := some n } } calls none (some n)) := by
  have howns : { s with handle := { s.handle with dirw := some n } }.Owns
      ((none : Option ℕ).toList ++ []) := by
    refine ⟨h.owns.blocks.exchange fun b => ?_, h.owns.handles⟩
    simp only [pointsTo, h.dirw, count_append, toList_some, toList_none,
      count_nil]
    omega
  by_cases hopens : Opens calls
  · exact .inl ⟨hopens, watchDirectory_eq_zero_iff.mpr hopens,
      watchDirectory_owns howns h.dirHandle hopens⟩
  · refine .inr ⟨hopens, mt watchDirectory_eq_zero_iff.mp hopens,
      watchDirectory_active.trans h.active, iff_of_false (fun hreleased => ?_) not_false⟩
    exact nomatch watchDirectory_dirw.symm.trans hreleased.dirw

theorem Naming.watchFile_ends (h : s.Naming [n])
    (hfilew : s.handle.filew = none) (hshort : s.handle.shortFilew = none) :
    Ends (Names calls filename ∧ Opens calls) True (s.watchFile calls n filename) := by
  rcases watchFile_cases h hfilew hshort with
    ⟨hnames, t, e, ht, heq⟩ | ⟨hnames, t, dir, ht, heq⟩
  · rw [heq]
    exact .inr ⟨fun habs => hnames habs.1, startError_ne_zero, ht.active,
      iff_of_true (startError_released ht.owns ht.dirw) trivial⟩
  · rw [heq]
    by_cases hopens : Opens calls
    · exact .inl ⟨⟨hnames, hopens⟩, watchDirectory_eq_zero_iff.mpr hopens,
        watchDirectory_owns ht.owns ht.dirHandle hopens⟩
    · have hfails : (t.watchDirectory calls dir none).1 ≠ 0 :=
        mt watchDirectory_eq_zero_iff.mp hopens
      exact .inr ⟨fun habs => hopens habs.2, hfails, watchDirectory_active.trans ht.active,
        iff_of_true (watchDirectory_released ht.owns ht.dirHandle ht.dirw hfails) trivial⟩

/-- A start that fails leaves nothing but an active handle if the path was converted and is no
directory. -/
theorem Idle.uvFsEventStart_ends (h : s.Idle) : Ends (Succeeds calls)
    ((∃ filename, calls.convert = .ok filename) ∧ calls.attributes ≠ .ok true)
    (s.uvFsEventStart calls) := by
  have hbegin := h.begin
  unfold uvFsEventStart Succeeds
  rw [h.active, if_neg Bool.false_ne_true]
  dsimp only
  cases calls.convert with
  | error e =>
    refine .inr ⟨?_, Int.ne_of_lt (uvTranslateSysError_neg e.property), rfl, iff_of_false ?_ ?_⟩
    · rintro ⟨filename, isDir, ⟨⟩, -⟩
    · exact fun hreleased => nomatch hreleased.path
    · rintro ⟨⟨filename, ⟨⟩⟩, -⟩
  | ok filename =>
    cases calls.attributes with
    | error e =>
      refine .inr ⟨?_, startError_ne_zero, rfl, iff_of_true ?_ ⟨⟨filename, rfl⟩, nofun⟩⟩
      · rintro ⟨filename, isDir, -, ⟨⟩, -⟩
      · have howns := hbegin.owns
        rw [← toList_some] at howns
        exact startError_released howns hbegin.dirw
    | ok isDir =>
      cases isDir with
      | true =>
        rcases hbegin.watchDirectory_ends with
          ⟨hopens, hzero, howns⟩ | ⟨hopens, hfails, hactive, hkept⟩
        · exact .inl ⟨⟨filename, true, rfl, rfl, nofun, hopens⟩, hzero, howns⟩
        · refine .inr ⟨?_, hfails, hactive, iff_of_false hkept.mp fun habs => habs.2 rfl⟩
          rintro ⟨_, _, -, -, -, habs⟩
          exact hopens habs
      | false =>
        rcases hbegin.watchFile_ends h.filew h.shortFilew with
          ⟨⟨hnames, hopens⟩, hzero, howns⟩ | ⟨hnot, hfails, hactive, hreleased⟩
        · exact .inl ⟨⟨filename, false, rfl, rfl, fun _ => hnames, hopens⟩, hzero, howns⟩
        · refine .inr ⟨?_, hfails, hactive,
            iff_of_true (hreleased.mpr trivial) ⟨⟨filename, rfl⟩, nofun⟩⟩
          rintro ⟨_, _, ⟨⟩, ⟨⟩, hnames, hopens⟩
          exact hnot ⟨hnames rfl, hopens⟩

/-- A start that fails never restores the handle. -/
theorem uvFsEventStart_restores_iff (h : s.Idle) :
    (((s.uvFsEventStart calls).1 ≠ 0 → (s.uvFsEventStart calls).2.Restored) ↔ Succeeds calls) ∧
    ((s.uvFsEventStart calls).1 ≠ 0 → ((s.uvFsEventStart calls).2.Released ↔
      (∃ filename, calls.convert = .ok filename) ∧ calls.attributes ≠ .ok true)) := by
  rcases h.uvFsEventStart_ends with ⟨hok, hzero, -⟩ | ⟨hok, hfails, hactive, hreleased⟩
  · exact ⟨iff_of_true (absurd hzero) hok, absurd hzero⟩
  · refine ⟨iff_of_false (fun hrestored => ?_) hok, fun _ => hreleased⟩
    exact nomatch hactive.symm.trans (hrestored hfails).inactive

/-- A file whose directory cannot be opened -/
def unopenedFile : StartCalls where
  convert := .ok (charsOf "C:\\a\\b")
  attributes := .ok false
  shortPath := .ok (charsOf "C:\\a\\b")
  splitPath := ⟨none, true⟩
  splitShort := ⟨none, true⟩
  splitError := ⟨5, by decide⟩
  createFile := .error ⟨5, by decide⟩
  completionPort := .ok ()
  readChanges := .ok ()

theorem uvFsEventStart_restores_file :
    (((init.uvFsEventStart unopenedFile).1 ≠ 0 → (init.uvFsEventStart unopenedFile).2.Restored) ↔
      Succeeds unopenedFile) ∧ (init.uvFsEventStart unopenedFile).2.Released := by
  obtain ⟨hrestored, hreleased⟩ : _ ∧ ((init.uvFsEventStart unopenedFile).1 ≠ 0 → _) :=
    uvFsEventStart_restores_iff idle_init
  exact ⟨hrestored, (hreleased (by decide)).mpr ⟨⟨_, rfl⟩, nofun⟩⟩

def unopenedDirectory : Watch :=
  (init.uvFsEventStart { unopenedFile with attributes := .ok true }).2

/-- It cannot be started again, and the path is freed twice when it is stopped. -/
theorem uvFsEventStart_not_restored : ¬unopenedDirectory.Restored ∧
    (unopenedDirectory.uvFsEventStart unopenedFile).1 = uvEinval ∧
    ¬unopenedDirectory.uvFsEventStop.frees.Nodup := by
  refine ⟨fun hrestored => ?_, by decide, by decide⟩
  exact nomatch hrestored.inactive

end Watch

end LibuvWorks.Win.FsEventStart
