import LibuvWorks.Lib.Transition
import Mathlib.Data.Int.Notation

/-!
# Watching a directory on Windows

A `uv_fs_event_t` watches a directory, or one file of it by its long and its short name. It has one
request for changes and one buffer for their records. When the request is completed the user's
callback is called for one record after the other, and may start, stop and close the handle
meanwhile; then the request is made once more. Each step below is a call by the user's code, a
completion up to the first call of the callback, or what follows the return of one.
-/

namespace LibuvWorks.Win

open Transition

inductive WName where
  | null
  | live (chars : List ℕ)
  | dangling
  deriving DecidableEq

namespace WName

def read : WName → Option (List ℕ)
  | .live chars => some chars
  | _ => none

/-- `if (name) { uv__free(name); name = NULL; }` -/
def free : WName → Option WName
  | .dangling => none
  | _ => some .null

end WName

inductive FileAction where
  | added
  | removed
  | modified
  | renamedOldName
  | renamedNewName

def FileAction.events : FileAction → ℕ
  | .modified => 2 -- `UV_CHANGE`
  | _ => 1 -- `UV_RENAME`

/-- A `FILE_NOTIFY_INFORMATION`. `longPath` is what `GetLongPathNameW` says of the file, if it still
exists. -/
structure FileNotify where
  action : FileAction
  fileName : List ℕ
  longPath : Option (List ℕ)

/-- `file_info_cmp`; `lower` is how `_wcsnicmp` folds case. The result says if they are equal. -/
def fileInfoCmp (lower : ℕ → ℕ) (str fileName : List ℕ) : Bool :=
  str.length = fileName.length ∧ str.map lower = fileName.map lower

/-- `uv_relative_path`; 92 is the backslash -/
def uvRelativePath (filename dir : List ℕ) : List ℕ :=
  filename.drop ((if dir.getLast? = some 92 then dir.length - 1 else dir.length) + 1)

inductive WatchTarget where
  | dir (pathw : List ℕ)
  | file (filew shortFilew : List ℕ)

def WatchTarget.isDir : WatchTarget → Bool
  | .dir _ => true
  | .file .. => false

/-- How far `uv_fs_event_start` comes: the path is not converted, or its names are not found, the
directory is not opened, not bound to the completion port or not read, or all goes well. -/
inductive StartOutcome where
  | unconverted
  | unknown
  | unopened (t : WatchTarget)
  | unbound (t : WatchTarget)
  | unread (t : WatchTarget)
  | watching (t : WatchTarget)

/-- The result of a request; when there were too many changes there are no records. -/
inductive Changes where
  | failed (error : ℤ)
  | found (records : List FileNotify)

/-- A call of the user's callback. The name is not converted to UTF-8. `batch` is the watch that
the request was made for and `current` the one that the handle is on. -/
structure EventCall where
  filename : Option (List ℕ)
  events : ℕ
  status : ℤ
  batch : ℕ
  current : Option ℕ

/-- A call of `ReadDirectoryChangesW`: whether the caller of `uv_fs_event_start` asked for the
subdirectories, whether they are watched, and whether the request was pending then. -/
structure Submission where
  asked : Bool
  recursive : Bool
  pending : Bool

/-- `uv_process_fs_event_req` while the user's callback runs: the buffer that it walks, if it does,
and the records that are left. -/
structure EventFrame where
  batch : ℕ
  buffer : Option ℕ
  rest : List FileNotify

/-- A handle. `buffer` is the number of its buffer and `buffers` how many were allocated. No step
reads the fields from `watch` on but to note what is done: `watch` is the number of the last start
that succeeded, `asked` whether that was to be recursive, `watching` whether it was not stopped
yet, `inFlight` has the watches that the requests were made for that are not dealt with, and
`endgames` tells for each time that the endgame was queued whether the request was pending. -/
structure FsEvent where
  ref : Bool
  active : Bool
  closing : Bool
  endgameQueued : Bool
  closed : Bool
  dirOpen : Bool
  reqPending : Bool
  filew : WName
  shortFilew : WName
  dirw : WName
  buffer : Option ℕ
  buffers : ℕ
  running : Option EventFrame
  watch : ℕ
  asked : Bool
  watching : Bool
  inFlight : List ℕ
  calls : List EventCall
  submissions : List Submission
  endgames : List Bool

namespace FsEvent

inductive Event where
  | start (recursive : Bool) (o : StartOutcome)
  | stop
  | close
  | setRef (ref : Bool)
  | complete (r : Changes)
  | returned
  | endgame

variable (lower : ℕ → ℕ) (s : FsEvent)

/-- `handle->flags` -/
def flags : ℕ :=
  s.closing.toNat * 0x1 + s.closed.toNat * 0x2 + s.endgameQueued.toNat * 0x8 +
    s.ref.toNat * 0x20 + s.active.toNat * 0x40

def uvFsEventRecursive : ℕ := 4

/-- A request is made; it is pending even if that fails. -/
def submit (recursive : Bool) : FsEvent :=
  let submission : Submission := ⟨s.asked, recursive, s.reqPending⟩
  { s with
    reqPending := true
    inFlight := s.inFlight ++ [s.watch]
    submissions := s.submissions ++ [submission] }

/-- `uv_fs_event_queue_readdirchanges` with its assertions -/
def uvFsEventQueueReaddirchanges : Option FsEvent :=
  if s.dirOpen = false ∨ s.reqPending = true then none
  else some (s.submit (s.flags &&& uvFsEventRecursive ≠ 0))

def uvWantEndgame : FsEvent :=
  if s.endgameQueued then s
  else { s with endgameQueued := true, endgames := s.endgames ++ [s.reqPending] }

/-- `uv_fs_event_start`, the names that the handle keeps -/
def setNames : WatchTarget → FsEvent
  | .dir pathw => { s with dirw := .live pathw }
  | .file filew shortFilew => { s with filew := .live filew, shortFilew := .live shortFilew }

/-- `uv_fs_event_start` from `error` on; for a directory `pathw` is the string that the handle has
as `dirw` -/
def startError (isDir : Bool) : FsEvent :=
  { s with
    filew := .null
    shortFilew := .null
    dirw := if isDir then .dangling else s.dirw
    dirOpen := false
    buffer := none }

/-- The directory is open and bound to the completion port. -/
def startBuffer (t : WatchTarget) : FsEvent :=
  { s.setNames t with
    dirOpen := true
    buffer := some (s.buffer.getD s.buffers)
    buffers := if s.buffer = none then s.buffers + 1 else s.buffers }

def uvFsEventStart (recursive : Bool) (o : StartOutcome) : FsEvent :=
  if s.active then s
  else
    let s : FsEvent := { s with active := true }
    match o with
    | .unconverted => s
    | .unknown => s.startError false
    | .unopened t => (s.setNames t).startError t.isDir
    | .unbound t => { s.setNames t with dirOpen := true }.startError t.isDir
    | .unread t =>
      let submission : Submission := ⟨recursive, recursive, s.reqPending⟩
      { s.startBuffer t with submissions := s.submissions ++ [submission] }.startError t.isDir
    | .watching t =>
      { s.startBuffer t with
        watch := s.watch + 1
        asked := recursive
        watching := true }.submit recursive

def uvFsEventStop : Option FsEvent :=
  if s.active = false then some s
  else do
    let filew ← s.filew.free
    let shortFilew ← s.shortFilew.free
    let dirw ← s.dirw.free
    some { s with
      active := false
      dirOpen := false
      filew := filew
      shortFilew := shortFilew
      dirw := dirw
      watching := false }

def uvFsEventClose : Option FsEvent := do
  let s ← s.uvFsEventStop
  let s : FsEvent := { s with closing := true, active := false }
  some (if s.reqPending then s else s.uvWantEndgame)

/-- The event is fired for a record of a directory, and otherwise if the name matches. -/
def fires (record : FileNotify) : Option Bool :=
  if s.dirw = .null then do
    let filew ← s.filew.read
    if fileInfoCmp lower filew record.fileName then some true
    else do
      let shortFilew ← s.shortFilew.read
      some (fileInfoCmp lower shortFilew record.fileName)
  else some true

/-- The name that is told: the long name where it can be found. -/
def filenameOf (record : FileNotify) : Option (List ℕ) :=
  if s.dirw = .null then s.filew.read
  else
    match record.action with
    | .removed | .renamedOldName => some record.fileName
    | _ => s.dirw.read.bind fun dirw =>
      match record.longPath with
      | some long => some (uvRelativePath long dirw)
      | none => some record.fileName

/-- The user's callback is called. -/
def callback (frame : EventFrame) (filename : Option (List ℕ)) (events : ℕ) (status : ℤ) :
    FsEvent :=
  let call : EventCall :=
    { filename := filename
      events := events
      status := status
      batch := frame.batch
      current := if s.watching then some s.watch else none }
  { s with running := some frame, calls := s.calls ++ [call] }

/-- `uv_process_fs_event_req` after the loop -/
def finish : Option FsEvent :=
  if s.closing = false then s.uvFsEventQueueReaddirchanges else some s.uvWantEndgame

/-- The loop of `uv_process_fs_event_req` from a record on, up to the next call. -/
def scan (batch : ℕ) : List FileNotify → Option FsEvent
  | [] => s.finish
  | record :: rest => do
    let fired ← s.fires lower record
    if fired then do
      let filename ← s.filenameOf record
      some (s.callback ⟨batch, s.buffer, rest⟩ (some filename) record.action.events 0)
    else if s.closing then s.finish
    else scan batch rest

/-- `uv_process_fs_event_req` when `req_pending` is reset, up to the first call of the user's
callback -/
def processChanges (batch : ℕ) (r : Changes) : Option FsEvent :=
  if s.active = false then some (if s.closing then s.uvWantEndgame else s)
  else
    match r with
    | .failed error => some (s.callback ⟨batch, none, []⟩ none 0 error)
    | .found [] => some (s.callback ⟨batch, none, []⟩ none FileAction.modified.events 0)
    | .found records => s.buffer.bind fun _ => s.scan lower batch records

def uvProcessFsEventReq (r : Changes) : Option FsEvent :=
  match s.inFlight with
  | [] => none
  | batch :: inFlight =>
    if s.reqPending = false then none
    else { s with inFlight := inFlight, reqPending := false }.processChanges lower batch r

/-- The rest of it, when the user's callback has returned. The record that was dealt with tells
where the next one is. -/
def callbackReturn : Option FsEvent :=
  s.running.bind fun frame =>
    let s : FsEvent := { s with running := none }
    if frame.buffer ≠ none ∧ frame.buffer ≠ s.buffer then none
    else if s.closing then s.finish
    else s.scan lower frame.batch frame.rest

def uvFsEventEndgame : Option FsEvent :=
  let s : FsEvent := { s with endgameQueued := false }
  if s.closing = true ∧ s.reqPending = false then
    if s.closed then none else some { s with buffer := none, closed := true }
  else some s

def next : Event → Option FsEvent
  | .start recursive o => some (s.uvFsEventStart recursive o)
  | .stop => s.uvFsEventStop
  | .close => s.uvFsEventClose
  | .setRef ref => some { s with ref := ref }
  | .complete r => s.uvProcessFsEventReq lower r
  | .returned => s.callbackReturn lower
  | .endgame => s.uvFsEventEndgame

/-- The user calls as it likes, but for a handle that is closing. Requests are completed and
endgames processed when no callback runs. -/
def Enabled : Event → Prop
  | .start .. | .close => s.closing = false
  | .stop | .setRef _ => s.closed = false
  | .complete _ => s.running = none ∧ s.inFlight ≠ []
  | .returned => s.running ≠ none
  | .endgame => s.running = none ∧ s.endgameQueued = true

instance : DecidablePred s.Enabled := fun e => by
  cases e <;> unfold Enabled <;> infer_instance

def step (e : Event) : Option FsEvent := if s.Enabled e then s.next lower e else none

/-- A handle that has been initialised. -/
def init : FsEvent where
  ref := true
  active := false
  closing := false
  endgameQueued := false
  closed := false
  dirOpen := false
  reqPending := false
  filew := .null
  shortFilew := .null
  dirw := .null
  buffer := none
  buffers := 0
  running := none
  watch := 0
  asked := false
  watching := false
  inFlight := []
  calls := []
  submissions := []
  endgames := []

abbrev Step (s : FsEvent) (e : Event) (t : FsEvent) : Prop := s.step lower e = some t

end FsEvent

end LibuvWorks.Win
