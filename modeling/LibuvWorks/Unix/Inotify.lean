import LibuvWorks.Lib.Rings
import LibuvWorks.Lib.Transition
import Mathlib.Data.BitVec

/-!
# Watching files with inotify

The handles that watch a descriptor are linked in the `watcher_list` of that descriptor, and the
lists are in a tree. For an event the handles of its list are moved to a local queue and taken back
one by one, with a call of the callback for each. Each step below is a call by the user's code, a
read of events, a turn of one of the loops in `uv__inotify_read`, or the return of a callback.
-/

namespace LibuvWorks.Unix

open Function (update)
open RingLinks Transition

variable {ι : Type*}

/-- What the links lead to: a list, the local queue of `uv__inotify_read`, or a handle. -/
inductive WatchNode (ι : Type*) where
  | list (l : ℕ) : WatchNode ι
  | queue : WatchNode ι
  | handle (h : ι) : WatchNode ι
  deriving DecidableEq

/-- `struct uv__inotify_event` -/
structure InotifyEvent where
  wd : ℤ
  mask : BitVec 32
  name : Option String
  deriving DecidableEq

def uvInModify : BitVec 32 := 0x002#32
def uvInAttrib : BitVec 32 := 0x004#32
def uvRename : BitVec 32 := 1#32
def uvChange : BitVec 32 := 2#32

def InotifyEvent.events (e : InotifyEvent) : BitVec 32 :=
  (if e.mask &&& (uvInAttrib ||| uvInModify) ≠ 0 then uvChange else 0) |||
    if e.mask &&& ~~~(uvInAttrib ||| uvInModify) ≠ 0 then uvRename else 0

/-- `uv__basename_r` -/
def uvBasename (path : String) : String := (path.splitOn "/").getLastD path

/-- `struct watcher_list`, with how often it was freed -/
structure WatcherList where
  wd : ℤ
  path : String
  iterating : Bool
  freed : ℕ

/-- A call `h->cb(h, path, events, 0)`. -/
structure FsEventCall (ι : Type*) where
  handle : ι
  cb : ℕ
  path : String
  events : BitVec 32

/-- The delivery of an event to the handles of a list; `current` is the handle whose callback runs.
No step reads the last three fields: `start` are the handles that watched the descriptor when it
began, `gone` those that were stopped before their turn, and `calls` the calls so far. -/
structure InotifyDelivery (ι : Type*) where
  list : ℕ
  event : InotifyEvent
  path : String
  current : Option ι
  start : List ι
  gone : List ι
  calls : List (FsEventCall ι)

/-- A loop that watches files. `tree` finds the list of a descriptor, and `batch` are the events
that `uv__inotify_read` still has to go through. No step reads the last four fields: `watching` are
the active handles, `watches` tells which descriptors were added and not removed since, `received`
are the events read so far, and `delivered` the deliveries that have ended. -/
structure InotifyLoop (ι : Type*) where
  links : RingLinks (WatchNode ι)
  tree : ℤ → Option ℕ
  created : ℕ
  lists : ℕ → WatcherList
  active : ι → Bool
  wd : ι → ℤ
  cb : ι → ℕ
  path : ι → Option ℕ
  batch : Option (List InotifyEvent)
  delivery : Option (InotifyDelivery ι)
  watching : List ι
  watches : ℤ → Bool
  received : List InotifyEvent
  delivered : List (InotifyDelivery ι)

/-- The handle is stopped; a delivery that has not called it yet will not do so any more. -/
def InotifyDelivery.drop [DecidableEq ι] (d : InotifyDelivery ι) (h : ι) : InotifyDelivery ι :=
  if h ∈ d.calls.map (·.handle) then d else { d with gone := h :: d.gone }

namespace InotifyLoop

inductive Event (ι : Type*) where
  | start (h : ι) (cb : ℕ) (path : String) (wd : ℤ)
  | stop (h : ι)
  | getpath (h : ι)
  | poll
  | read (es : List InotifyEvent)
  | again
  | turn
  | returned

variable [DecidableEq ι] (s : InotifyLoop ι)

def readList (l : ℕ) : Option WatcherList :=
  if l < s.created ∧ (s.lists l).freed = 0 then some (s.lists l) else none

def setList (l : ℕ) (w : WatcherList) : InotifyLoop ι :=
  { s with lists := update s.lists l w }

/-- `maybe_free_watcher_list`; the list must be the one in the tree -/
def maybeFreeWatcherList (l : ℕ) : Option (InotifyLoop ι) :=
  (s.readList l).bind fun w =>
    if w.iterating = false ∧ s.links.next (.list l) = .list l then
      if s.tree w.wd ≠ some l then none
      else
        some { s.setList l { w with freed := w.freed + 1 } with
          tree := update s.tree w.wd none
          watches := update s.watches w.wd false }
    else some s

/-- `uv__inotify_add_watch` has added the descriptor. -/
def addWatch (wd : ℤ) : InotifyLoop ι := { s with watches := update s.watches wd true }

/-- A list is made for a descriptor and put into the tree. -/
def insertList (wd : ℤ) (path : String) : InotifyLoop ι :=
  { s.setList s.created ⟨wd, path, false, 0⟩ with
    created := s.created + 1
    links := s.links.init (.list s.created)
    tree := update s.tree wd (some s.created) }

/-- `uv_fs_event_start` from `no_insert` on: the handle is linked to the list -/
def noInsert (h : ι) (cb : ℕ) (wd : ℤ) (l : ℕ) : InotifyLoop ι :=
  { s with
    links := s.links.insertTail (.list l) (.handle h)
    active := update s.active h true
    wd := update s.wd h wd
    cb := update s.cb h cb
    path := update s.path h (some l)
    watching := s.watching ++ [h] }

/-- `uv_fs_event_start`, where `wd` is what `uv__inotify_add_watch` returns -/
def uvFsEventStart (h : ι) (cb : ℕ) (path : String) (wd : ℤ) : Option (InotifyLoop ι) :=
  if s.active h then some s
  else if wd = -1 then some s
  else
    let s := s.addWatch wd
    match s.tree wd with
    | some l => (s.readList l).bind fun _ => s.noInsert h cb wd l
    | none => (s.insertList wd path).noInsert h cb wd s.created

/-- The handle is unlinked from the ring that it is in. -/
def unlink (h : ι) : InotifyLoop ι :=
  { s with
    links := s.links.remove (.handle h)
    active := update s.active h false
    wd := update s.wd h (-1)
    path := update s.path h none
    delivery := s.delivery.map (·.drop h)
    watching := s.watching.erase h }

def uvFsEventStop (h : ι) : Option (InotifyLoop ι) :=
  if s.active h = false then some s
  else
    (s.tree (s.wd h)).bind fun l => (s.readList l).bind fun _ =>
      (s.unlink h).maybeFreeWatcherList l

/-- `uv_fs_event_getpath` reads the path of the list. -/
def uvFsEventGetpath (h : ι) : Option (InotifyLoop ι) :=
  if s.active h = false then some s
  else (s.path h).bind fun l => (s.readList l).bind fun _ => some s

/-- `w->iterating` is set. -/
def setIterating (l : ℕ) (iterating : Bool) : InotifyLoop ι :=
  s.setList l { s.lists l with iterating := iterating }

/-- The handles of the list are moved to the local queue, to be called for the event. -/
def moveToQueue (e : InotifyEvent) (l : ℕ) : InotifyLoop ι :=
  { s.setIterating l true with
    links := s.links.move (.list l) .queue
    delivery := some
      { list := l
        event := e
        path := e.name.getD (uvBasename (s.lists l).path)
        current := none
        start := s.watching.filter fun h => s.wd h = e.wd
        gone := []
        calls := [] } }

/-- An event is looked at; it is stale when its descriptor has no list. -/
def beginDelivery (e : InotifyEvent) : Option (InotifyLoop ι) :=
  match s.tree e.wd with
  | none =>
    let start := s.watching.filter fun h => s.wd h = e.wd
    some { s with delivered := s.delivered ++ [⟨0, e, "", none, start, [], []⟩] }
  | some l => (s.readList l).bind fun _ => s.moveToQueue e l

/-- The first handle of the local queue goes back to the list and is called. -/
def call (d : InotifyDelivery ι) (h : ι) : InotifyLoop ι :=
  let call : FsEventCall ι := ⟨h, s.cb h, d.path, d.event.events⟩
  { s with
    links := (s.links.remove (.handle h)).insertTail (.list d.list) (.handle h)
    delivery := some { d with current := some h, calls := d.calls ++ [call] } }

/-- The delivery has ended. -/
def endDelivery (d : InotifyDelivery ι) : InotifyLoop ι :=
  { s.setIterating d.list false with
    delivery := none
    delivered := s.delivered ++ [d] }

/-- A turn of the loop over the local queue; at the end the list may be freed. -/
def deliver (d : InotifyDelivery ι) : Option (InotifyLoop ι) :=
  (s.readList d.list).bind fun _ =>
    let n := s.links.next .queue
    if n = .queue then (s.endDelivery d).maybeFreeWatcherList d.list
    else
      match n with
      | .handle h => some (s.call d h)
      | _ => none

def next : Event ι → Option (InotifyLoop ι)
  | .start h cb path wd => s.uvFsEventStart h cb path wd
  | .stop h => s.uvFsEventStop h
  | .getpath h => s.uvFsEventGetpath h
  | .poll => some { s with batch := some [] }
  | .read es => some { s with batch := some es, received := s.received ++ es }
  | .again => some { s with batch := none }
  | .turn =>
    match s.delivery with
    | some d => s.deliver d
    | none =>
      match s.batch with
      | some (e :: es) => { s with batch := some es }.beginDelivery e
      | _ => none
  | .returned => some { s with delivery := s.delivery.map fun d => { d with current := none } }

/-- The user's code runs: in a callback of a delivery, or outside of `uv__inotify_read`. -/
def Callable : Prop :=
  match s.delivery with
  | some d => d.current ≠ none
  | none => s.batch = none

/-- Another turn is made when no callback runs: there is a delivery, or an event left. -/
def Busy : Prop :=
  match s.delivery with
  | some d => d.current = none
  | none => s.batch ≠ none ∧ s.batch ≠ some []

def Enabled : Event ι → Prop
  | .start _ _ _ _ | .stop _ | .getpath _ => s.Callable
  | .poll => s.delivery = none ∧ s.batch = none
  | .read _ | .again => s.delivery = none ∧ s.batch = some []
  | .turn => s.Busy
  | .returned => ∃ d ∈ s.delivery, d.current ≠ none

instance : Decidable s.Callable := by
  unfold Callable
  split <;> infer_instance

instance : Decidable s.Busy := by
  unfold Busy
  split <;> infer_instance

instance : DecidablePred s.Enabled := fun e => by
  cases e <;> unfold Enabled <;> infer_instance

def step (e : Event ι) : Option (InotifyLoop ι) := if s.Enabled e then s.next e else none

/-- Nothing is watched; the links of the handles are not set. -/
def init (junk : RingLinks (WatchNode ι)) : InotifyLoop ι where
  links := junk
  tree _ := none
  created := 0
  lists _ := ⟨0, "", false, 0⟩
  active _ := false
  wd _ := -1
  cb _ := 0
  path _ := none
  batch := none
  delivery := none
  watching := []
  watches _ := false
  received := []
  delivered := []

abbrev Step (s : InotifyLoop ι) (e : Event ι) (t : InotifyLoop ι) : Prop := s.step e = some t

end InotifyLoop

end LibuvWorks.Unix
