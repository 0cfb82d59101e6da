import LibuvWorks.Lib.Fairness
import Mathlib.Data.List.Nodup

/-!
# Wake-ups on unix

A thread that sends sets the flag of the handle and writes to a descriptor. The loop drains the
descriptor, moves the handles to a local queue, and visits each of them: its flag is cleared, and
its callback is called if it was set.
-/
namespace LibuvWorks.Unix

open List
open Function (update update_of_ne update_self)
open Transition

inductive AsyncStatus where
  | fresh : AsyncStatus
  | opened : AsyncStatus
  | closed : AsyncStatus
  deriving DecidableEq

/-- `uv_async_t`; `starts` counts the calls of its callback. -/
structure AsyncHandle where
  status : AsyncStatus
  pending : Bool
  asyncCb : Bool
  starts : ℕ

/-- What a call of `uv_async_send` does next. -/
inductive SendStage where
  | read : SendStage
  | cmpxchg : SendStage
  | write : SendStage
  | done : SendStage
  deriving DecidableEq

/-- A call of `uv_async_send` by any thread; `began` is the number of starts when it began. -/
structure SendCall (ι : Type*) where
  handle : ι
  stage : SendStage
  began : ℕ
  deriving DecidableEq

/-- The loop is elsewhere, in the `for` of `uv__async_io`, in the `while` of `uv__async_event`, or
in a callback called from there. -/
inductive AsyncPhase where
  | poll : AsyncPhase
  | read : AsyncPhase
  | scan : AsyncPhase
  | callback : AsyncPhase
  deriving DecidableEq

/-- `queue` is the local queue of `uv__async_event`, `readable` what the descriptor holds, and
`returned` the calls that have returned, with the starts when they began and when they returned. -/
structure AsyncLoop (ι : Type*) where
  handle : ι → AsyncHandle
  asyncHandles : List ι
  queue : List ι
  phase : AsyncPhase
  readable : ℕ
  calls : List (SendCall ι)
  returned : List (ι × ℕ × ℕ)

/-- The descriptor is an eventfd, or else a pipe, and holds at most `capacity`. -/
structure WakeUpFd where
  eventfd : Bool
  capacity : ℕ
  pos : 0 < capacity

namespace AsyncLoop

variable {ι : Type*} [DecidableEq ι] {fd : WakeUpFd} {s t : AsyncLoop ι} {h k : ι} {v : AsyncHandle}

/-! ### The code -/

def setHandle (s : AsyncLoop ι) (h : ι) (v : AsyncHandle) : AsyncLoop ι :=
  { s with handle := update s.handle h v }

def uvAsyncInit (s : AsyncLoop ι) (h : ι) (asyncCb : Bool) : AsyncLoop ι :=
  { s.setHandle h ⟨.opened, false, asyncCb, 0⟩ with asyncHandles := s.asyncHandles ++ [h] }

/-- `uv__async_close`; the handle leaves the queue that it is in. -/
def uvAsyncClose (s : AsyncLoop ι) (h : ι) : AsyncLoop ι :=
  { s.setHandle h { s.handle h with status := .closed } with
    asyncHandles := s.asyncHandles.erase h
    queue := s.queue.erase h }

def setStage (s : AsyncLoop ι) (c : SendCall ι) (stage : SendStage) : AsyncLoop ι :=
  { s with calls := { c with stage } :: s.calls.erase c }

/-- The next step of a call of `uv_async_send`. A write to a full descriptor fails with `EAGAIN`. -/
def uvAsyncSend (fd : WakeUpFd) (s : AsyncLoop ι) (c : SendCall ι) : AsyncLoop ι :=
  match c.stage with
  | .read => s.setStage c (if (s.handle c.handle).pending then .done else .cmpxchg)
  | .cmpxchg =>
    if (s.handle c.handle).pending then s.setStage c .done
    else (s.setHandle c.handle { s.handle c.handle with pending := true }).setStage c .write
  | .write =>
    { s.setStage c .done with
      readable := if s.readable < fd.capacity then s.readable + 1 else s.readable }
  | .done =>
    { s with
      calls := s.calls.erase c
      returned := s.returned ++ [(c.handle, c.began, (s.handle c.handle).starts)] }

/-- The begin of `uv__async_event`. -/
def uvAsyncEvent (s : AsyncLoop ι) : AsyncLoop ι :=
  { s with queue := s.asyncHandles, asyncHandles := [], phase := .scan }

/-- A round of the `for` of `uv__async_io`; none if the assertion fails. A pipe is read again if it
filled the buffer. -/
def uvAsyncIo (fd : WakeUpFd) (s : AsyncLoop ι) : Option (AsyncLoop ι) :=
  if fd.eventfd then
    if s.readable = 0 then none else some { s with readable := 0 }.uvAsyncEvent
  else
    let r := min s.readable 1024
    let s := { s with readable := s.readable - r }
    if r = 1024 then some s else some s.uvAsyncEvent

/-- A round of the `while` of `uv__async_event`, until the callback. -/
def visit (s : AsyncLoop ι) (h : ι) (queue : List ι) : AsyncLoop ι :=
  let s := { s with queue, asyncHandles := s.asyncHandles ++ [h] }
  if (s.handle h).pending then
    if (s.handle h).asyncCb then
      { s.setHandle h { s.handle h with
          pending := false, starts := (s.handle h).starts + 1 } with phase := .callback }
    else s.setHandle h { s.handle h with pending := false }
  else s

/-- The loop goes on; it does not leave `uv__io_poll` for the descriptor unless that is readable. -/
def proceed (fd : WakeUpFd) (s : AsyncLoop ι) : Option (AsyncLoop ι) :=
  match s.phase with
  | .poll => some { s with phase := .read }
  | .read => s.uvAsyncIo fd
  | .scan =>
    match s.queue with
    | [] => some { s with phase := .poll }
    | h :: queue => some (s.visit h queue)
  | .callback => some { s with phase := .scan }

/-- The user initialises and closes handles, threads send, the loop goes on, or something else
happens. -/
inductive Event (ι : Type*) where
  | init (h : ι) (asyncCb : Bool) : Event ι
  | close (h : ι) : Event ι
  | begin (h : ι) : Event ι
  | send (c : SendCall ι) : Event ι
  | loop : Event ι
  | idle : Event ι

/-- The events that can happen. The calls are made on open handles: a handle is not closed while a
call has not come to an end of its access to the flag. -/
def Enabled (s : AsyncLoop ι) : Event ι → Prop
  | .init h _ => (s.handle h).status = .fresh ∧ (s.phase = .poll ∨ s.phase = .callback)
  | .close h => (s.handle h).status = .opened ∧ (s.phase = .poll ∨ s.phase = .callback) ∧
      ∀ c ∈ s.calls, c.handle = h → c.stage = .write ∨ c.stage = .done
  | .begin h => (s.handle h).status = .opened
  | .send c => c ∈ s.calls
  | .loop => s.phase = .poll → 0 < s.readable
  | .idle => True

instance (s : AsyncLoop ι) : ∀ e : Event ι, Decidable (Enabled s e)
  | .init _ _ => inferInstanceAs (Decidable (_ ∧ _))
  | .close h => inferInstanceAs (Decidable (_ ∧ _ ∧
      ∀ c ∈ s.calls, c.handle = h → c.stage = .write ∨ c.stage = .done))
  | .begin _ => inferInstanceAs (Decidable (_ = _))
  | .send c => inferInstanceAs (Decidable (c ∈ s.calls))
  | .loop => inferInstanceAs (Decidable (_ → _))
  | .idle => .isTrue trivial

def next (fd : WakeUpFd) (s : AsyncLoop ι) : Event ι → Option (AsyncLoop ι)
  | .init h asyncCb => some (s.uvAsyncInit h asyncCb)
  | .close h => some (s.uvAsyncClose h)
  | .begin h => some { s with calls := ⟨h, .read, (s.handle h).starts⟩ :: s.calls }
  | .send c => some (s.uvAsyncSend fd c)
  | .loop => s.proceed fd
  | .idle => some s

def step (fd : WakeUpFd) (s : AsyncLoop ι) (e : Event ι) : Option (AsyncLoop ι) :=
  if Enabled s e then s.next fd e else none

def Step (fd : WakeUpFd) (s : AsyncLoop ι) (e : Event ι) (t : AsyncLoop ι) : Prop :=
  s.step fd e = some t

structure Init (s : AsyncLoop ι) : Prop where
  status : ∀ h, (s.handle h).status = .fresh
  asyncHandles : s.asyncHandles = []
  queue : s.queue = []
  phase : s.phase = .poll
  calls : s.calls = []
  returned : s.returned = []

/-! ### What is outstanding -/

/-- A send will write, the descriptor is readable, it was just drained, or the scan has yet to
visit the handle. -/
def Outstanding (s : AsyncLoop ι) (h : ι) : Prop :=
  (∃ c ∈ s.calls, c.handle = h ∧ c.stage = .write) ∨ 0 < s.readable ∨ s.phase = .read ∨ h ∈ s.queue

/-- The callback started since it had started `n` times, or the handle is closed. -/
def Served (h : ι) (n : ℕ) (s : AsyncLoop ι) : Prop :=
  (s.handle h).status = .closed ∨ n < (s.handle h).starts

/-- Of `n` starts the handle has had at least as many; it was served since, or it is open and its
flag is set. -/
def Answers (s : AsyncLoop ι) (h : ι) (n : ℕ) : Prop :=
  n ≤ (s.handle h).starts ∧ ((s.handle h).asyncCb = true → Served h n s ∨
    (s.handle h).status = .opened ∧ (s.handle h).pending = true)

structure SoundCall (s : AsyncLoop ι) (c : SendCall ι) : Prop where
  known : (s.handle c.handle).status ≠ .fresh
  began : c.began ≤ (s.handle c.handle).starts
  testing : c.stage = .read ∨ c.stage = .cmpxchg → (s.handle c.handle).status = .opened
  tested : c.stage = .write ∨ c.stage = .done → Answers s c.handle c.began

structure Settled (fd : WakeUpFd) (s : AsyncLoop ι) : Prop where
  nodup : (s.asyncHandles ++ s.queue).Nodup
  opened : ∀ h, h ∈ s.asyncHandles ++ s.queue ↔ (s.handle h).status = .opened
  queue : s.phase = .poll ∨ s.phase = .read → s.queue = []
  drains : fd.eventfd = true → s.phase = .read → 0 < s.readable
  outstanding : ∀ h, (s.handle h).status = .opened → (s.handle h).pending = true →
    Outstanding s h
  calls : ∀ c ∈ s.calls, SoundCall s c
  returned : ∀ r ∈ s.returned, (s.handle r.1).status ≠ .fresh ∧ Answers s r.1 r.2.1

/-- How a handle that was initialised can change. -/
def Advances (v w : AsyncHandle) : Prop :=
  v.status ≠ .fresh → w.asyncCb = v.asyncCb ∧ v.starts ≤ w.starts ∧
    (w.status = v.status ∨ w.status = .closed) ∧
    (v.pending = true → v.asyncCb = true → w.pending = true ∨ v.starts < w.starts)

theorem Advances.refl (v : AsyncHandle) : Advances v v :=
  fun _ => ⟨rfl, Nat.le_refl _, .inl rfl, fun hpending _ => .inl hpending⟩

theorem Advances.known {w : AsyncHandle} (hadv : Advances v w) (hv : v.status ≠ .fresh) :
    w.status ≠ .fresh := by
  obtain ⟨-, -, hstatus, -⟩ := hadv hv
  rcases hstatus with hstatus | hstatus
  · rwa [hstatus]
  · rw [hstatus]
    nofun

theorem advances_update {f : ι → AsyncHandle} (hadv : Advances (f h) v) (k : ι) :
    Advances (f k) (update f h v k) := by
  by_cases hk : k = h
  · subst hk
    rw [update_self]
    exact hadv
  · rw [update_of_ne hk]
    exact .refl _

theorem Advances.of_fresh {w : AsyncHandle} (hv : v.status = .fresh) : Advances v w :=
  fun hknown => absurd hv hknown

theorem Advances.close (v : AsyncHandle) : Advances v { v with status := .closed } :=
  fun _ => ⟨rfl, Nat.le_refl _, .inr rfl, fun hpending _ => .inl hpending⟩

theorem Advances.setPending (v : AsyncHandle) : Advances v { v with pending := true } :=
  fun _ => ⟨rfl, Nat.le_refl _, .inl rfl, fun _ _ => .inl rfl⟩

theorem Advances.start (v : AsyncHandle) : Advances v { v with
    pending := false
    starts := if v.pending = true ∧ v.asyncCb = true then v.starts + 1 else v.starts } := by
  refine fun _ => ⟨rfl, ?_, .inl rfl, fun hpending hcb => .inr ?_⟩
  · dsimp only
    split <;> omega
  · rw [if_pos ⟨hpending, hcb⟩]
    exact Nat.lt_succ_self _

section Frame

omit [DecidableEq ι]

theorem Answers.advance {n : ℕ} (hs : Answers s h n) (hv : (s.handle h).status ≠ .fresh)
    (hadv : Advances (s.handle h) (t.handle h)) : Answers t h n := by
  obtain ⟨hle, hanswers⟩ := hs
  obtain ⟨hcb, hstarts, hstatus, hpending⟩ := hadv hv
  refine ⟨Nat.le_trans hle hstarts, fun hset => ?_⟩
  rw [hcb] at hset
  rcases hanswers hset with (hclosed | hlt) | ⟨hopen, hflag⟩
  · rw [hclosed] at hstatus
    exact .inl (.inl (hstatus.elim id id))
  · exact .inl (.inr (Nat.lt_of_lt_of_le hlt hstarts))
  · rcases hstatus with hstatus | hclosed
    · rcases hpending hflag hset with hkept | hlt
      · exact .inr ⟨hstatus.trans hopen, hkept⟩
      · exact .inl (.inr (Nat.lt_of_le_of_lt hle hlt))
    · exact .inl (.inl hclosed)

theorem SoundCall.advance {c : SendCall ι} (hs : SoundCall s c)
    (hadv : Advances (s.handle c.handle) (t.handle c.handle))
    (hopen : c.stage = .read ∨ c.stage = .cmpxchg → (t.handle c.handle).status = .opened) :
    SoundCall t c where
  known := hadv.known hs.known
  began := Nat.le_trans hs.began (hadv hs.known).2.1
  testing := hopen
  tested := fun hstage => (hs.tested hstage).advance hs.known hadv

theorem Settled.returned_advance (hs : Settled fd s)
    (hadv : ∀ k, Advances (s.handle k) (t.handle k)) :
    ∀ r ∈ s.returned, (t.handle r.1).status ≠ .fresh ∧ Answers t r.1 r.2.1 := by
  intro r hr
  obtain ⟨hknown, hanswers⟩ := hs.returned r hr
  exact ⟨(hadv r.1).known hknown, hanswers.advance hknown (hadv r.1)⟩

end Frame

/-! ### One event -/

section

variable (hs : Settled fd s) {c : SendCall ι}
include hs

theorem Settled.init (hfresh : (s.handle h).status = .fresh)
    (asyncCb : Bool) : Settled fd (s.uvAsyncInit h asyncCb) := by
  let t := s.uvAsyncInit h asyncCb
  have hself : t.handle h = ⟨.opened, false, asyncCb, 0⟩ := update_self ..
  have hother {k : ι} (hk : k ≠ h) : t.handle k = s.handle k := update_of_ne hk ..
  have hadv (k : ι) : Advances (s.handle k) (t.handle k) := advances_update (.of_fresh hfresh) k
  have hnew : h ∉ s.asyncHandles ++ s.queue := by
    rw [hs.opened, hfresh]
    nofun
  have hperm : (t.asyncHandles ++ t.queue).Perm (h :: (s.asyncHandles ++ s.queue)) := by
    change (s.asyncHandles ++ [h] ++ s.queue).Perm _
    rw [append_assoc]
    exact perm_middle
  refine ⟨?_, ?_, hs.queue, hs.drains, ?_, ?_, hs.returned_advance hadv⟩
  · exact hperm.nodup_iff.mpr (nodup_cons.mpr ⟨hnew, hs.nodup⟩)
  · intro k
    rw [hperm.mem_iff, mem_cons]
    by_cases hk : k = h
    · subst hk
      exact iff_of_true (.inl rfl) (congrArg AsyncHandle.status hself)
    · rw [hother hk, ← hs.opened]
      exact or_iff_right hk
  · intro k hopen hpending
    by_cases hk : k = h
    · subst hk
      cases (congrArg AsyncHandle.pending hself).symm.trans hpending
    · rw [hother hk] at hopen hpending
      exact hs.outstanding k hopen hpending
  · intro c hc
    have hsound := hs.calls c hc
    have hne : c.handle ≠ h := by
      intro heq
      exact hsound.known (heq ▸ hfresh)
    apply hsound.advance (hadv _)
    intro hstage
    rw [hother hne]
    exact hsound.testing hstage

theorem Settled.close (hopen : (s.handle h).status = .opened)
    (hcalls : ∀ c ∈ s.calls, c.handle = h → c.stage = .write ∨ c.stage = .done) :
    Settled fd (s.uvAsyncClose h) := by
  let t := s.uvAsyncClose h
  have hself : t.handle h = { s.handle h with status := .closed } := update_self ..
  have hother {k : ι} (hk : k ≠ h) : t.handle k = s.handle k := update_of_ne hk ..
  have hadv (k : ι) : Advances (s.handle k) (t.handle k) := advances_update (.close _) k
  obtain ⟨hnodup, hnodup', -⟩ := nodup_append.mp hs.nodup
  refine ⟨?_, ?_, ?_, hs.drains, ?_, ?_, hs.returned_advance hadv⟩
  · exact (erase_sublist.append erase_sublist).nodup hs.nodup
  · intro k
    change k ∈ s.asyncHandles.erase h ++ s.queue.erase h ↔ _
    rw [mem_append, hnodup.mem_erase_iff, hnodup'.mem_erase_iff, ← and_or_left,
      ← mem_append, hs.opened]
    by_cases hk : k = h
    · subst hk
      apply iff_of_false (fun hne => hne.1 rfl)
      rw [hself]
      nofun
    · rw [hother hk]
      exact and_iff_right hk
  · intro hphase
    change s.queue.erase h = []
    rw [hs.queue hphase, erase_nil]
  · intro k hopen' hpending
    by_cases hk : k = h
    · subst hk
      cases (congrArg AsyncHandle.status hself).symm.trans hopen'
    · rw [hother hk] at hopen' hpending
      rcases hs.outstanding k hopen' hpending with hwrite | hreadable | hread | hmem
      · exact .inl hwrite
      · exact .inr (.inl hreadable)
      · exact .inr (.inr (.inl hread))
      · exact .inr (.inr (.inr ((mem_erase_of_ne hk).mpr hmem)))
  · intro c hc
    have hsound := hs.calls c hc
    apply hsound.advance (hadv _)
    intro hstage
    have hne : c.handle ≠ h := by
      intro heq
      rcases hcalls c hc heq with hlater | hlater <;> simp [hlater] at hstage
    rw [hother hne]
    exact hsound.testing hstage

omit [DecidableEq ι] in
theorem Settled.beginSend (hopen : (s.handle h).status = .opened) :
    Settled fd { s with calls := ⟨h, .read, (s.handle h).starts⟩ :: s.calls } := by
  refine { hs with outstanding := ?_, calls := ?_ }
  · intro k hopen' hpending
    apply (hs.outstanding k hopen' hpending).imp_left
    rintro ⟨c, hc, hwrite⟩
    exact ⟨c, mem_cons_of_mem _ hc, hwrite⟩
  · intro c hc
    rcases mem_cons.mp hc with rfl | hc
    · exact ⟨by simp [hopen], Nat.le_refl _, fun _ => hopen, by simp⟩
    · have hsound := hs.calls c hc
      exact { hsound with }

theorem Settled.setStage (hc : c ∈ s.calls)
    {stage : SendStage} (hwrite : c.stage ≠ .write) (hsound : SoundCall s { c with stage }) :
    Settled fd (s.setStage c stage) := by
  refine { hs with outstanding := ?_, calls := ?_ }
  · intro k hopen hpending
    apply (hs.outstanding k hopen hpending).imp_left
    rintro ⟨d, hd, hhandle, hstage⟩
    have hne : d ≠ c := by
      rintro rfl
      exact hwrite hstage
    exact ⟨d, mem_cons_of_mem _ ((mem_erase_of_ne hne).mpr hd), hhandle, hstage⟩
  · intro d hd
    have hd' : SoundCall s d := by
      rcases mem_cons.mp hd with rfl | hd
      · exact hsound
      · exact hs.calls d (mem_of_mem_erase hd)
    exact { hd' with }

theorem Settled.setPending (hc : c ∈ s.calls) (hstage : c.stage = .cmpxchg) :
    Settled fd ((s.setHandle c.handle { s.handle c.handle with pending := true }).setStage c
      .write) := by
  let t := (s.setHandle c.handle { s.handle c.handle with pending := true }).setStage c .write
  have hself : t.handle c.handle = { s.handle c.handle with pending := true } :=
    update_self ..
  have hother {k : ι} (hk : k ≠ c.handle) : t.handle k = s.handle k := update_of_ne hk ..
  have hstatus (k : ι) : (t.handle k).status = (s.handle k).status := by
    by_cases hk : k = c.handle
    · subst hk
      rw [hself]
    · rw [hother hk]
  have hadv (k : ι) : Advances (s.handle k) (t.handle k) := advances_update (.setPending _) k
  refine ⟨hs.nodup, ?_, hs.queue, hs.drains, ?_, ?_, hs.returned_advance hadv⟩
  · intro k
    rw [hstatus]
    exact hs.opened k
  · intro k hopen hpending
    by_cases hk : k = c.handle
    · subst hk
      exact .inl ⟨_, mem_cons_self, rfl, rfl⟩
    · rw [hother hk] at hopen hpending
      apply (hs.outstanding k hopen hpending).imp_left
      rintro ⟨d, hd, hhandle, hwrite⟩
      have hne : d ≠ c := by
        rintro rfl
        exact hk hhandle.symm
      exact ⟨d, mem_cons_of_mem _ ((mem_erase_of_ne hne).mpr hd), hhandle, hwrite⟩
  · intro d hd
    have hkeeps {d : SendCall ι} (hd : SoundCall s d) : SoundCall t d := by
      apply hd.advance (hadv _)
      intro hearly
      rw [hstatus]
      exact hd.testing hearly
    have hsound := hkeeps (hs.calls c hc)
    rcases mem_cons.mp hd with rfl | hd
    · refine ⟨hsound.known, hsound.began, by simp, fun _ => ⟨hsound.began, fun _ => ?_⟩⟩
      have hopen := hsound.testing (.inr hstage)
      exact .inr ⟨hopen, congrArg AsyncHandle.pending hself⟩
    · exact hkeeps (hs.calls d (mem_of_mem_erase hd))

theorem Settled.write (hc : c ∈ s.calls)
    (hstage : c.stage = .write) : Settled fd { s.setStage c .done with
      readable := if s.readable < fd.capacity then s.readable + 1 else s.readable } := by
  have hpos : 0 < if s.readable < fd.capacity then s.readable + 1 else s.readable := by
    have hcapacity := fd.pos
    split <;> omega
  refine ⟨hs.nodup, hs.opened, hs.queue, fun _ _ => hpos, fun _ _ _ => .inr (.inl hpos), ?_,
    hs.returned⟩
  intro d hd
  have hd' : SoundCall s d := by
    rcases mem_cons.mp hd with rfl | hd
    · have hsound := hs.calls c hc
      exact ⟨hsound.known, hsound.began, by simp, fun _ => hsound.tested (.inl hstage)⟩
    · exact hs.calls d (mem_of_mem_erase hd)
  exact { hd' with }

theorem Settled.leave (hc : c ∈ s.calls) (hstage : c.stage = .done) : Settled fd { s with
      calls := s.calls.erase c
      returned := s.returned ++ [(c.handle, c.began, (s.handle c.handle).starts)] } := by
  refine ⟨hs.nodup, hs.opened, hs.queue, hs.drains, ?_, ?_, ?_⟩
  · intro k hopen hpending
    apply (hs.outstanding k hopen hpending).imp_left
    rintro ⟨d, hd, hhandle, hwrite⟩
    have hne : d ≠ c := by
      rintro rfl
      cases hstage.symm.trans hwrite
    exact ⟨d, (mem_erase_of_ne hne).mpr hd, hhandle, hwrite⟩
  · intro d hd
    have hsound := hs.calls d (mem_of_mem_erase hd)
    exact { hsound with }
  · intro r hr
    rcases mem_append.mp hr with hr | hr
    · exact hs.returned r hr
    · obtain rfl := mem_singleton.mp hr
      have hsound := hs.calls c hc
      exact ⟨hsound.known, hsound.tested (.inr hstage)⟩

theorem Settled.send (hc : c ∈ s.calls) : Settled fd (s.uvAsyncSend fd c) := by
  have hsound := hs.calls c hc
  have hdone (hopen : (s.handle c.handle).status = .opened)
      (hpending : (s.handle c.handle).pending = true) : SoundCall s { c with stage := .done } := by
    refine ⟨hsound.known, hsound.began, by simp, fun _ => ⟨hsound.began, fun _ => ?_⟩⟩
    exact .inr ⟨hopen, hpending⟩
  rw [uvAsyncSend]
  cases hstage : c.stage with
  | read =>
    have hopen := hsound.testing (.inl hstage)
    apply hs.setStage hc (by simp [hstage])
    split
    · exact hdone hopen ‹_›
    · exact ⟨hsound.known, hsound.began, fun _ => hopen, by simp⟩
  | cmpxchg =>
    have hopen := hsound.testing (.inr hstage)
    dsimp only
    split
    · exact hs.setStage hc (by simp [hstage]) (hdone hopen ‹_›)
    · exact hs.setPending hc hstage
  | write => exact hs.write hc hstage
  | done => exact hs.leave hc hstage

omit [DecidableEq ι] in
theorem Settled.event (hphase : s.phase = .read) (readable : ℕ) :
    Settled fd { s with readable }.uvAsyncEvent := by
  have hqueue := hs.queue (.inr hphase)
  have hnodup := hs.nodup
  have hopened := hs.opened
  rw [hqueue, append_nil] at hnodup hopened
  refine ⟨hnodup, hopened, ?_, ?_, ?_, ?_, hs.returned⟩
  · rintro (hpoll | hread)
    · cases hpoll
    · cases hread
  · intro _ hread
    cases hread
  · intro k hopen _
    exact .inr (.inr (.inr ((hopened k).mpr hopen)))
  · intro c hc
    have hsound := hs.calls c hc
    exact { hsound with }

omit [DecidableEq ι] in
theorem Settled.io (hphase : s.phase = .read) :
    ∃ t, s.uvAsyncIo fd = some t ∧ Settled fd t := by
  rw [uvAsyncIo]
  by_cases heventfd : fd.eventfd = true
  · have hreadable := hs.drains heventfd hphase
    rw [if_pos heventfd, if_neg (by omega)]
    exact ⟨_, rfl, hs.event hphase 0⟩
  · rw [if_neg heventfd]
    dsimp only
    split
    · refine ⟨_, rfl, hs.nodup, hs.opened, hs.queue, fun h => absurd h heventfd, ?_, ?_,
        hs.returned⟩
      · exact fun _ _ _ => .inr (.inr (.inl hphase))
      · intro c hc
        have hsound := hs.calls c hc
        exact { hsound with }
    · exact ⟨_, rfl, hs.event hphase _⟩

end

theorem visit_handle (s : AsyncLoop ι) (h : ι) (queue : List ι) :
    (s.visit h queue).handle = update s.handle h { s.handle h with
      pending := false
      starts := if (s.handle h).pending = true ∧ (s.handle h).asyncCb = true then
        (s.handle h).starts + 1 else (s.handle h).starts } := by
  dsimp only [visit]
  by_cases hpending : (s.handle h).pending = true
  · by_cases hcb : (s.handle h).asyncCb = true
    · rw [if_pos hpending, if_pos hcb, if_pos ⟨hpending, hcb⟩]
      rfl
    · rw [if_pos hpending, if_neg hcb, if_neg fun hboth => hcb hboth.2]
      rfl
  · rw [if_neg hpending, if_neg fun hboth => hpending hboth.1]
    have hself : { s.handle h with pending := false } = s.handle h := by
      rw [← Bool.eq_false_iff.mpr hpending]
    rw [hself]
    exact (Function.update_eq_self h s.handle).symm

theorem visit_rest (s : AsyncLoop ι) (h : ι) (queue : List ι) :
    (s.visit h queue).queue = queue ∧ (s.visit h queue).asyncHandles = s.asyncHandles ++ [h] ∧
      (s.visit h queue).readable = s.readable ∧ (s.visit h queue).calls = s.calls ∧
      (s.visit h queue).returned = s.returned ∧
      ((s.visit h queue).phase = .callback ∨ (s.visit h queue).phase = s.phase) := by
  dsimp only [visit]
  split
  · split
    · exact ⟨rfl, rfl, rfl, rfl, rfl, .inl rfl⟩
    · exact ⟨rfl, rfl, rfl, rfl, rfl, .inr rfl⟩
  · exact ⟨rfl, rfl, rfl, rfl, rfl, .inr rfl⟩

theorem Settled.visit {queue : List ι} (hs : Settled fd s) (hphase : s.phase = .scan)
    (hqueue : s.queue = h :: queue) : Settled fd (s.visit h queue) := by
  have hhandle := s.visit_handle h queue
  obtain ⟨hq, hasync, hreadable, hcalls, hreturned, hnext⟩ := s.visit_rest h queue
  rw [hphase] at hnext
  set t := s.visit h queue
  have hother {k : ι} (hk : k ≠ h) : t.handle k = s.handle k :=
    (congrFun hhandle k).trans (update_of_ne hk ..)
  have hself := (congrFun hhandle h).trans (update_self ..)
  have hstatus (k : ι) : (t.handle k).status = (s.handle k).status := by
    by_cases hk : k = h
    · subst hk
      rw [hself]
    · rw [hother hk]
  have hadv (k : ι) : Advances (s.handle k) (t.handle k) := by
    rw [hhandle]
    exact advances_update (.start _) k
  have hlists : t.asyncHandles ++ t.queue = s.asyncHandles ++ s.queue := by
    rw [hasync, hq, hqueue, append_assoc]
    rfl
  have hleft : t.phase ≠ .poll ∧ t.phase ≠ .read := by
    rcases hnext with hnext | hnext <;> simp [hnext]
  refine ⟨hlists ▸ hs.nodup, ?_, ?_, ?_, ?_, ?_, ?_⟩
  · intro k
    rw [hlists, hstatus]
    exact hs.opened k
  · rintro (hpoll | hread)
    · exact absurd hpoll hleft.1
    · exact absurd hread hleft.2
  · exact fun _ hread => absurd hread hleft.2
  · intro k hopen hpending
    by_cases hk : k = h
    · subst hk
      rw [hself] at hpending
      cases hpending
    · rw [hother hk] at hopen hpending
      rcases hs.outstanding k hopen hpending with hwrite | hpos | hread | hmem
      · exact .inl (hcalls ▸ hwrite)
      · exact .inr (.inl (hreadable ▸ hpos))
      · cases hphase.symm.trans hread
      · rw [hqueue] at hmem
        exact .inr (.inr (.inr (hq ▸ (mem_cons.mp hmem).resolve_left hk)))
  · intro c hc
    have hsound := hs.calls c (hcalls ▸ hc)
    apply hsound.advance (hadv _)
    intro hstage
    rw [hstatus]
    exact hsound.testing hstage
  · rw [hreturned]
    exact hs.returned_advance hadv

theorem Settled.proceed (hs : Settled fd s) (henabled : s.phase = .poll → 0 < s.readable) :
    ∃ t, s.proceed fd = some t ∧ Settled fd t := by
  have hcalls {t : AsyncLoop ι} (hhandle : t.handle = s.handle) (hc : t.calls = s.calls) :
      ∀ c ∈ t.calls, SoundCall t c := by
    intro c hmem
    have hsound := hs.calls c (hc ▸ hmem)
    apply hsound.advance (hhandle ▸ .refl _)
    rw [hhandle]
    exact hsound.testing
  rw [AsyncLoop.proceed]
  cases hphase : s.phase with
  | poll =>
    have hqueue := hs.queue (.inl hphase)
    exact ⟨_, rfl, hs.nodup, hs.opened, fun _ => hqueue, fun _ _ => henabled hphase,
      fun _ _ _ => .inr (.inr (.inl rfl)), hcalls rfl rfl, hs.returned⟩
  | read => exact hs.io hphase
  | scan =>
    cases hqueue : s.queue with
    | nil =>
      have hnodup := hs.nodup
      have hopened := hs.opened
      rw [hqueue] at hnodup hopened
      refine ⟨_, rfl, hnodup, hopened, fun _ => rfl, ?_, ?_, hcalls rfl rfl, hs.returned⟩
      · intro _ hread
        cases hread
      · intro k hopen hpending
        rcases hs.outstanding k hopen hpending with hwrite | hpos | hread | hmem
        · exact .inl hwrite
        · exact .inr (.inl hpos)
        · cases hphase.symm.trans hread
        · exact absurd (hqueue ▸ hmem) not_mem_nil
    | cons k queue => exact ⟨_, rfl, hs.visit hphase hqueue⟩
  | callback =>
    refine ⟨_, rfl, hs.nodup, hs.opened, ?_, ?_, ?_, hcalls rfl rfl, hs.returned⟩
    · rintro (hpoll | hread)
      · cases hpoll
      · cases hread
    · intro _ hread
      cases hread
    · intro k hopen hpending
      rcases hs.outstanding k hopen hpending with hwrite | hpos | hread | hmem
      · exact .inl hwrite
      · exact .inr (.inl hpos)
      · cases hphase.symm.trans hread
      · exact .inr (.inr (.inr hmem))

theorem Settled.step (hs : Settled fd s) {e : Event ι} (henabled : Enabled s e) :
    ∃ t, s.step fd e = some t ∧ Settled fd t := by
  rw [AsyncLoop.step, if_pos henabled]
  cases e with
  | init h asyncCb => exact ⟨_, rfl, hs.init henabled.1 asyncCb⟩
  | close h => exact ⟨_, rfl, hs.close henabled.1 henabled.2.2⟩
  | begin h => exact ⟨_, rfl, hs.beginSend henabled⟩
  | send c => exact ⟨_, rfl, hs.send henabled⟩
  | loop => exact hs.proceed henabled
  | idle => exact ⟨s, rfl, hs⟩

omit [DecidableEq ι] in
theorem Settled.of_init (h : Init s) : Settled fd s := by
  obtain ⟨hstatus, hasync, hqueue, hphase, hcalls, hreturned⟩ := h
  constructor
  · simp [hasync, hqueue]
  · simp [hasync, hqueue, hstatus]
  · exact fun _ => hqueue
  · intro _ hread
    cases hphase.symm.trans hread
  · intro k hopen
    cases (hstatus k).symm.trans hopen
  · simp [hcalls]
  · simp [hreturned]

theorem Settled.of_reachable (h : Reachable Init (Step fd) s) : Settled fd s := by
  apply h.invariant (fun s hinit => .of_init hinit)
  intro s e t _ hs hstep
  obtain ⟨henabled, -⟩ := Option.ite_none_right_eq_some.mp hstep
  obtain ⟨u, hu, hsettled⟩ := hs.step henabled
  rwa [Option.some.inj (hstep.symm.trans hu)]

end AsyncLoop

end LibuvWorks.Unix
