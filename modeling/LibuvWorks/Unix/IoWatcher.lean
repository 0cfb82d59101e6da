import Mathlib.Data.Int.Notation
import Mathlib.Tactic.Common

/-!
# One watcher, as its handle sees it

What `uv__io_start`, `uv__io_stop`, `uv__io_feed` and `uv__io_close` do to the watcher that they are
called with: the events that it asks for, and the two queues of the loop that it may be in.
-/
namespace LibuvWorks.Unix

/-- `POLLIN` and `POLLOUT` of `events` and `pevents`. -/
structure PollMask where
  input : Bool
  output : Bool
  deriving DecidableEq

namespace PollMask

def empty : PollMask := ⟨false, false⟩

def pollIn : PollMask := ⟨true, false⟩

def pollOut : PollMask := ⟨false, true⟩

def union (m n : PollMask) : PollMask := ⟨m.input || n.input, m.output || n.output⟩

def without (m n : PollMask) : PollMask := ⟨m.input && !n.input, m.output && !n.output⟩

end PollMask

/-- The links of `pending_queue`: to the watcher itself, in the queue of the loop, or those of an
element that `QUEUE_REMOVE` has left as they were. -/
inductive PendingLink where
  | self : PendingLink
  | linked : PendingLink
  | stale : PendingLink
  deriving DecidableEq

/-- `uv__io_t`; `queued` says that it is in `watcher_queue`. `nwatchers` is that of the loop. -/
structure IoWatcher where
  fd : ℤ
  events : PollMask
  pevents : PollMask
  pending : PendingLink
  queued : Bool
  nwatchers : ℕ

namespace IoWatcher

variable {w v : IoWatcher} {m : PollMask}

/-- `uv__io_start`; `none` is an assertion that fails. -/
def uvIoStart (w : IoWatcher) (m : PollMask) : Option IoWatcher :=
  if w.fd < 0 then none
  else
    let w := { w with pevents := w.pevents.union m, nwatchers := max w.nwatchers (w.fd.toNat + 1) }
    if w.events = w.pevents then some w else some { w with queued := true }

/-- `uv__io_stop`. A watcher that is not in `loop->watchers` has no `events`. -/
def uvIoStop (w : IoWatcher) (m : PollMask) : IoWatcher :=
  if w.fd = -1 ∨ (w.nwatchers : ℤ) ≤ w.fd then w
  else
    let pevents := w.pevents.without m
    if pevents = .empty then { w with pevents, events := .empty, queued := false }
    else { w with pevents, queued := true }

def uvIoClose (w : IoWatcher) : IoWatcher :=
  let w := w.uvIoStop ⟨true, true⟩
  { w with pending := if w.pending = .self then .self else .stale }

def uvIoFeed (w : IoWatcher) : IoWatcher :=
  { w with pending := if w.pending = .self then .linked else w.pending }

/-- The turn of the watcher in `uv__io_poll`, before the loop waits. -/
def register (w : IoWatcher) : IoWatcher :=
  if w.queued then { w with events := w.pevents, queued := false } else w

/-- `uv__run_pending` takes it from the queue. -/
def unlink (w : IoWatcher) : IoWatcher := { w with pending := .self }

/-! ### What the calls keep -/

@[simp] theorem fd_uvIoStop : (w.uvIoStop m).fd = w.fd := by
  unfold uvIoStop
  dsimp only
  split_ifs <;> rfl

@[simp] theorem pending_uvIoStop : (w.uvIoStop m).pending = w.pending := by
  unfold uvIoStop
  dsimp only
  split_ifs <;> rfl

theorem uvIoStart_isSome (h : 0 ≤ w.fd) : ∃ v, w.uvIoStart m = some v := by
  rw [uvIoStart, if_neg (Int.not_lt.mpr h)]
  dsimp only
  split_ifs
  · exact ⟨_, rfl⟩
  · exact ⟨_, rfl⟩

theorem uvIoStart_spec (h : w.uvIoStart m = some v) : 0 ≤ w.fd ∧ v.fd = w.fd ∧
    v.pending = w.pending ∧ v.pevents = w.pevents.union m ∧ v.fd < v.nwatchers := by
  unfold uvIoStart at h
  dsimp only at h
  split_ifs at h with hneg hsame
  · cases h
    exact ⟨by omega, rfl, rfl, rfl, by dsimp only; omega⟩
  · cases h
    exact ⟨by omega, rfl, rfl, rfl, by dsimp only; omega⟩

/-- A watcher that asks for something, or is queued to, is in the table. -/
structure Known (w : IoWatcher) : Prop where
  queued : w.queued = true → 0 ≤ w.fd ∧ w.fd < w.nwatchers
  pevents : w.pevents ≠ .empty → 0 ≤ w.fd ∧ w.fd < w.nwatchers

theorem Known.uvIoStart (hstart : w.uvIoStart m = some v) : Known v := by
  obtain ⟨hfd, hsame, -, -, hlt⟩ := uvIoStart_spec hstart
  rw [← hsame] at hfd
  exact ⟨fun _ => ⟨hfd, hlt⟩, fun _ => ⟨hfd, hlt⟩⟩

theorem pevents_uvIoStop (h : Known w) : (w.uvIoStop m).pevents = w.pevents.without m := by
  unfold IoWatcher.uvIoStop
  dsimp only
  split_ifs with hout hempty
  · by_cases hne : w.pevents = .empty
    · rw [hne]
      rfl
    · obtain ⟨hfd, hlt⟩ := h.pevents hne
      omega
  · rfl
  · rfl

theorem Known.uvIoStop (h : Known w) : Known (w.uvIoStop m) := by
  unfold IoWatcher.uvIoStop
  dsimp only
  split_ifs with hout hempty
  · exact h
  · exact ⟨nofun, fun habs => absurd hempty habs⟩
  · have hne : w.pevents ≠ .empty := by
      intro habs
      rw [habs] at hempty
      exact hempty rfl
    exact ⟨fun _ => h.pevents hne, fun _ => h.pevents hne⟩

theorem uvIoClose_spec (h : Known w) : w.uvIoClose.fd = w.fd ∧ w.uvIoClose.pending ≠ .linked ∧
    w.uvIoClose.queued = false ∧ w.uvIoClose.pevents = .empty := by
  have hpevents : (w.uvIoStop ⟨true, true⟩).pevents = .empty := by
    rw [pevents_uvIoStop h]
    simp [PollMask.without, PollMask.empty]
  refine ⟨fd_uvIoStop, ?_, ?_, hpevents⟩
  · unfold uvIoClose
    dsimp only
    split_ifs <;> nofun
  · change (w.uvIoStop ⟨true, true⟩).queued = false
    unfold IoWatcher.uvIoStop at hpevents ⊢
    dsimp only at hpevents ⊢
    split_ifs with hout hempty
    · by_contra hset
      obtain ⟨hfd, hlt⟩ := h.queued (by simpa using hset)
      omega
    · rfl
    · rw [if_neg hout, if_neg hempty] at hpevents
      exact absurd hpevents hempty

theorem uvIoStop_of_empty (hqueued : w.queued = false) (hpevents : w.pevents = .empty) :
    (w.uvIoStop m).queued = false ∧ (w.uvIoStop m).pevents = .empty := by
  have hwithout : w.pevents.without m = .empty := by
    rw [hpevents]
    rfl
  unfold uvIoStop
  dsimp only
  split_ifs
  · exact ⟨hqueued, hpevents⟩
  · exact ⟨rfl, hwithout⟩

end IoWatcher

end LibuvWorks.Unix
