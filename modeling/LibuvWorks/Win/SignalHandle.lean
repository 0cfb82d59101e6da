import LibuvWorks.Lib.Transition
import LibuvWorks.Lib.History

/-!
# Signal handles: `win/signal.c`

The console control thread, or the one that sees the console being resized, stores a signal in each
handle that watches it and posts the request of the handle, unless a signal was stored before. The
lock of the signal tree is held in between.
-/
open Option

namespace LibuvWorks.Win

/-- What is recorded: the calls of the user that begin or end a watch, and those of `signal_cb`. -/
inductive SignalEntry where
  | start (signum : ℕ) : SignalEntry
  | stop : SignalEntry
  | close : SignalEntry
  | called (signum : ℕ) : SignalEntry

/-- `uv_signal_t`. `completions` counts the completions of `signal_req` that are posted and not yet
processed, `posting` says that the dispatcher is between its exchange and
`PostQueuedCompletionStatus`, and `inCb` that `signal_cb` runs. The log has the latest entry
first. -/
structure SignalHandle where
  signum : ℕ
  inTree : Bool
  pendingSignum : ℕ
  closing : Bool
  endgameQueued : Bool
  closed : Bool
  completions : ℕ
  posting : Bool
  inCb : Bool
  log : List SignalEntry

namespace SignalHandle

variable (s : SignalHandle)

/-- The completions of `signal_req`, with the one that the dispatcher is about to post. -/
def outstanding : ℕ := s.completions + if s.posting then 1 else 0

def uvWantEndgame : SignalHandle := { s with endgameQueued := true }

/-- `uv__signal_dispatch` stores the signal that the handle watches. -/
def exchange : SignalHandle :=
  { s with pendingSignum := s.signum, posting := s.pendingSignum = 0 }

/-- `POST_COMPLETION_FOR_REQ` of `uv__signal_dispatch` -/
def post : SignalHandle := { s with completions := s.completions + 1, posting := false }

/-- `uv_signal_stop`; `none` is an assertion that fails. -/
def uvSignalStop : Option SignalHandle :=
  if s.signum = 0 then some s
  else if s.inTree = false then none
  else some { s with inTree := false, signum := 0, log := .stop :: s.log }

/-- `uv_signal_start`; `registered` says that `uv__signal_register` succeeds. -/
def uvSignalStart (signum : ℕ) (registered : Bool) : Option SignalHandle :=
  if signum = 0 then some s
  else if signum = s.signum then some { s with log := .start signum :: s.log }
  else do
    let s ← s.uvSignalStop
    if registered then some { s with signum, inTree := true, log := .start signum :: s.log }
    else some s

/-- What `uv_process_signal_req` does after `signal_cb`. -/
def afterSignalCb : Option SignalHandle :=
  let s := { s with inCb := false }
  if s.closing then if s.signum ≠ 0 then none else some s.uvWantEndgame
  else some s

/-- `uv_process_signal_req` up to `signal_cb`. -/
def uvProcessSignalReq : Option SignalHandle :=
  let dispatchedSignum := s.pendingSignum
  let s := { s with completions := s.completions - 1, pendingSignum := 0 }
  if dispatchedSignum = 0 then none
  else if dispatchedSignum = s.signum then
    some { s with inCb := true, log := .called dispatchedSignum :: s.log }
  else s.afterSignalCb

def uvSignalClose : Option SignalHandle := do
  let s ← s.uvSignalStop
  if s.closing then none
  else
    let s := { s with closing := true, log := .close :: s.log }
    some (if s.pendingSignum = 0 then s.uvWantEndgame else s)

def uvSignalEndgame : Option SignalHandle :=
  let s := { s with endgameQueued := false }
  if s.closing = false ∨ s.closed ∨ s.signum ≠ 0 ∨ s.pendingSignum ≠ 0 then none
  else some { s with closed := true }

/-! ### Events -/

/-- The dispatcher stores the signal or posts the request, the loop processes the request,
`signal_cb` returns, the endgame runs, or the user calls. -/
inductive Event where
  | exchange : Event
  | post : Event
  | process : Event
  | returned : Event
  | endgame : Event
  | start (signum : ℕ) (registered : Bool) : Event
  | stop : Event
  | close : Event

/-- The events that can happen. The dispatcher holds the lock from its exchange to the post, and
`uv_signal_stop` waits for it; `uv_signal_start` does so unless it has nothing to change. -/
def Enabled : Event → Prop
  | .exchange => s.inTree = true ∧ s.posting = false
  | .post => s.posting = true
  | .process => s.inCb = false ∧ 0 < s.completions
  | .returned => s.inCb = true
  | .endgame => s.inCb = false ∧ s.endgameQueued = true
  | .start signum _ => s.closing = false ∧ (s.posting = true → signum = 0 ∨ signum = s.signum)
  | .stop => s.posting = false
  | .close => s.closing = false ∧ s.posting = false

instance (e : Event) : Decidable (s.Enabled e) := by
  cases e <;> unfold Enabled <;> infer_instance

def next : Event → Option SignalHandle
  | .exchange => some s.exchange
  | .post => some s.post
  | .process => s.uvProcessSignalReq
  | .returned => s.afterSignalCb
  | .endgame => s.uvSignalEndgame
  | .start signum registered => s.uvSignalStart signum registered
  | .stop => s.uvSignalStop
  | .close => s.uvSignalClose

def step (e : Event) : Option SignalHandle := if s.Enabled e then s.next e else none

def Step (s : SignalHandle) (e : Event) (t : SignalHandle) : Prop := s.step e = some t

/-- A handle after `uv_signal_init`. -/
structure Init (s : SignalHandle) : Prop where
  signum : s.signum = 0
  inTree : s.inTree = false
  pendingSignum : s.pendingSignum = 0
  closing : s.closing = false
  endgameQueued : s.endgameQueued = false
  closed : s.closed = false
  completions : s.completions = 0
  posting : s.posting = false
  inCb : s.inCb = false
  log : s.log = []

end SignalHandle

end LibuvWorks.Win

/-!
## A stored signal and its completion

`pending_signum` is not 0 exactly while one completion of the request is out. A handle that is
closed in `signal_cb` after another signal was dispatched to it is the exception: the close waits
for the completion, and `uv_process_signal_req` queues the endgame at once.
-/
namespace LibuvWorks.Win.SignalHandle

open History Transition

variable {s t : SignalHandle} {e : Event}

/-- The signal that the user watches by the record. -/
def watched : List SignalEntry → ℕ
  | [] => 0
  | .start signum :: _ => signum
  | .stop :: _ => 0
  | .close :: _ => 0
  | .called _ :: older => watched older

/-- `signal_cb` is called for the signal that is watched. -/
def Obeys (entry : SignalEntry) (older : List SignalEntry) : Prop :=
  ∀ signum, entry = .called signum → watched older = signum ∧ signum ≠ 0

structure Balanced (s : SignalHandle) : Prop where
  out : s.outstanding = if s.pendingSignum = 0 then 0 else 1
  tree : s.inTree = true ↔ s.signum ≠ 0
  closing : s.closing = true → s.signum = 0 ∧ s.posting = false
  queued : s.endgameQueued = true → s.closing = true ∧ s.closed = false ∧ s.pendingSignum = 0
  closed : s.closed = true → s.closing = true ∧ s.pendingSignum = 0 ∧ s.inCb = false
  inCb : s.inCb = true → s.closing = true → s.pendingSignum = 0
  watched : watched s.log = s.signum
  obeys : Justified Obeys s.log

/-- What `signal_cb` asks of the other threads: when it closes the handle, no signal was dispatched
to it since the call began. -/
def Careful (s : SignalHandle) : Event → Prop
  | .close => s.inCb = true → s.pendingSignum = 0
  | _ => True

instance (s : SignalHandle) (e : Event) : Decidable (Careful s e) := by
  cases e <;> dsimp only [Careful] <;> infer_instance

namespace Balanced

section

variable (h : Balanced s)
include h

theorem record {entry : SignalEntry} (hentry : ∀ signum, entry ≠ .called signum) :
    Justified Obeys (entry :: s.log) :=
  justified_cons.mpr ⟨fun signum habs => absurd habs (hentry signum), h.obeys⟩

theorem exchange (hin : s.inTree = true) (hposting : s.posting = false) :
    Balanced s.exchange := by
  have hsignum := h.tree.mp hin
  have hopen : ¬ s.closing = true := fun habs => hsignum (h.closing habs).1
  have hout := h.out
  have hnew : s.exchange.outstanding = 1 := by
    unfold SignalHandle.outstanding at hout
    rw [hposting, if_neg Bool.false_ne_true] at hout
    change s.completions + (if decide (s.pendingSignum = 0) = true then 1 else 0) = 1
    by_cases hpending : s.pendingSignum = 0
    · rw [if_pos hpending] at hout
      rw [if_pos (decide_eq_true hpending)]
      omega
    · rw [if_neg hpending] at hout
      rw [if_neg (by simpa using hpending)]
      exact hout
  exact {
    out := hnew.trans (if_neg hsignum).symm
    tree := h.tree
    closing := fun habs => absurd habs hopen
    queued := fun habs => absurd (h.queued habs).1 hopen
    closed := fun habs => absurd (h.closed habs).1 hopen
    inCb := fun _ habs => absurd habs hopen
    watched := h.watched
    obeys := h.obeys }

theorem post (hposting : s.posting = true) : Balanced s.post := by
  have hout := h.out
  unfold SignalHandle.outstanding at hout
  rw [hposting] at hout
  exact { h with
    out := hout
    closing := fun habs => ⟨(h.closing habs).1, rfl⟩ }

theorem uvSignalStop (hposting : s.posting = false) :
    ∃ t, s.uvSignalStop = some t ∧ Balanced t ∧ t.signum = 0 ∧
      t = { s with inTree := t.inTree, signum := 0, log := t.log } := by
  unfold SignalHandle.uvSignalStop
  by_cases hsignum : s.signum = 0
  · rw [if_pos hsignum]
    refine ⟨s, rfl, h, hsignum, ?_⟩
    rw [← hsignum]
  · rw [if_neg hsignum, if_neg (by simp [h.tree.mpr hsignum])]
    refine ⟨_, rfl, ?_, rfl, rfl⟩
    exact { h with
      tree := iff_of_false Bool.false_ne_true (not_not.mpr rfl)
      closing := fun _ => ⟨rfl, hposting⟩
      watched := rfl
      obeys := h.record nofun }

theorem uvSignalStart {signum : ℕ} {registered : Bool}
    (hclosing : s.closing = false)
    (hposting : s.posting = true → signum = 0 ∨ signum = s.signum) :
    ∃ t, s.uvSignalStart signum registered = some t ∧ Balanced t := by
  have hopen : ¬ s.closing = true := by simp [hclosing]
  unfold SignalHandle.uvSignalStart
  by_cases hzero : signum = 0
  · rw [if_pos hzero]
    exact ⟨s, rfl, h⟩
  · rw [if_neg hzero]
    by_cases hsame : signum = s.signum
    · rw [if_pos hsame]
      refine ⟨_, rfl, ?_⟩
      exact { h with
        watched := hsame
        obeys := h.record nofun }
    · rw [if_neg hsame]
      have hfree : s.posting = false := by
        by_contra hset
        exact (hposting (by simpa using hset)).elim hzero hsame
      obtain ⟨t, ht, hstop, -, heq⟩ := h.uvSignalStop hfree
      have hopen' : ¬ t.closing = true := by
        rw [heq]
        exact hopen
      rw [ht, bind_eq_bind, bind_some]
      split_ifs
      · refine ⟨_, rfl, ?_⟩
        exact { hstop with
          tree := iff_of_true rfl hzero
          closing := fun habs => absurd habs hopen'
          watched := rfl
          obeys := hstop.record nofun }
      · exact ⟨t, rfl, hstop⟩

theorem wantEndgame (hclosing : s.closing = true) (hclosed : s.closed = false)
    (hpending : s.pendingSignum = 0) : Balanced s.uvWantEndgame :=
  { h with queued := fun _ => ⟨hclosing, hclosed, hpending⟩ }

theorem uvSignalClose (hclosing : s.closing = false) (hposting : s.posting = false)
    (hcareful : s.inCb = true → s.pendingSignum = 0) :
    ∃ t, s.uvSignalClose = some t ∧ Balanced t := by
  have hopen : ¬ s.closing = true := by simp [hclosing]
  obtain ⟨u, hu, hstop, hsignum, heq⟩ := h.uvSignalStop hposting
  have hsame : u.closing = false ∧ u.posting = false ∧ u.pendingSignum = s.pendingSignum ∧
      u.inCb = s.inCb := by
    rw [heq]
    exact ⟨hclosing, hposting, rfl, rfl⟩
  have hopened : ¬ u.closing = true := by simp [hsame.1]
  have hclosed : u.closed = false := by
    by_contra hset
    exact hopened (hstop.closed (by simpa using hset)).1
  have hclose : Balanced { u with closing := true, log := .close :: u.log } := { hstop with
    closing := fun _ => ⟨hsignum, hsame.2.1⟩
    queued := fun habs => absurd (hstop.queued habs).1 hopened
    closed := fun habs => by cases hclosed.symm.trans habs
    inCb := fun habs _ => hsame.2.2.1.trans (hcareful (hsame.2.2.2 ▸ habs))
    watched := hsignum.symm
    obeys := hstop.record nofun }
  unfold SignalHandle.uvSignalClose
  rw [hu, bind_eq_bind, bind_some, if_neg hopened]
  dsimp only
  split_ifs with hpending
  · exact ⟨_, rfl, hclose.wantEndgame rfl hclosed hpending⟩
  · exact ⟨_, rfl, hclose⟩

end

/-! ### Processing -/

theorem afterSignalCb (h : Balanced s) (hpending : s.closing = true → s.pendingSignum = 0)
    (hclosed : s.closed = false) : ∃ t, s.afterSignalCb = some t ∧ Balanced t := by
  have hreturned : Balanced { s with inCb := false } := { h with
    closed := fun habs => by cases hclosed.symm.trans habs
    inCb := nofun }
  unfold SignalHandle.afterSignalCb
  dsimp only
  by_cases hclosing : s.closing = true
  · rw [if_pos hclosing, if_neg (not_not.mpr (h.closing hclosing).1)]
    exact ⟨_, rfl, hreturned.wantEndgame hclosing hclosed (hpending hclosing)⟩
  · rw [if_neg hclosing]
    exact ⟨_, rfl, hreturned⟩

theorem uvProcessSignalReq (h : Balanced s) (hcompletions : 0 < s.completions) :
    ∃ t, s.uvProcessSignalReq = some t ∧ Balanced t := by
  have hout := h.out
  unfold outstanding at hout
  -- The completion is the only one, so a signal is stored.
  have hpending : s.pendingSignum ≠ 0 := by
    intro hzero
    rw [if_pos hzero] at hout
    omega
  rw [if_neg hpending] at hout
  have hposting : s.posting = false := by
    by_contra hset
    rw [if_pos (by simpa using hset)] at hout
    omega
  rw [hposting, if_neg Bool.false_ne_true] at hout
  have hqueued : ¬ s.endgameQueued = true := fun habs => hpending (h.queued habs).2.2
  have hclosed : s.closed = false := by
    by_contra hset
    exact hpending (h.closed (by simpa using hset)).2.1
  have hout' : { s with completions := s.completions - 1, pendingSignum := 0 }.outstanding = 0 := by
    unfold outstanding
    dsimp only
    rw [hposting, if_neg Bool.false_ne_true]
    omega
  have htaken : Balanced { s with completions := s.completions - 1, pendingSignum := 0 } := { h with
    out := hout'
    queued := fun habs => absurd habs hqueued
    closed := fun habs => by cases hclosed.symm.trans habs
    inCb := fun _ _ => rfl }
  unfold SignalHandle.uvProcessSignalReq
  dsimp only
  rw [if_neg hpending]
  by_cases hsame : s.pendingSignum = s.signum
  · rw [if_pos hsame]
    refine ⟨_, rfl, ?_⟩
    have hcalled : Justified Obeys (.called s.pendingSignum :: s.log) := by
      refine justified_cons.mpr ⟨fun signum heq => ?_, h.obeys⟩
      cases heq
      exact ⟨h.watched.trans hsame.symm, hpending⟩
    exact { htaken with
      closed := fun habs => by cases hclosed.symm.trans habs
      inCb := fun _ _ => rfl
      obeys := hcalled }
  · rw [if_neg hsame]
    exact htaken.afterSignalCb (fun _ => rfl) hclosed

theorem uvSignalEndgame (h : Balanced s) (hinCb : s.inCb = false)
    (hqueued : s.endgameQueued = true) :
    ∃ t, s.uvSignalEndgame = some t ∧ Balanced t := by
  obtain ⟨hclosing, hclosed, hpending⟩ := h.queued hqueued
  have hsignum := (h.closing hclosing).1
  unfold SignalHandle.uvSignalEndgame
  dsimp only
  rw [if_neg (by simp [hclosing, hclosed, hpending, hsignum])]
  refine ⟨_, rfl, ?_⟩
  exact { h with
    queued := nofun
    closed := fun _ => ⟨hclosing, hpending, hinCb⟩ }

/-! ### Every run -/

theorem next (h : Balanced s) (henabled : s.Enabled e) (hcareful : Careful s e) :
    ∃ t, s.next e = some t ∧ Balanced t := by
  cases e with
  | exchange => exact ⟨_, rfl, h.exchange henabled.1 henabled.2⟩
  | post => exact ⟨_, rfl, h.post henabled⟩
  | process => exact h.uvProcessSignalReq henabled.2
  | returned =>
    apply h.afterSignalCb (h.inCb henabled)
    by_contra hset
    cases henabled.symm.trans (h.closed (by simpa using hset)).2.2
  | endgame => exact h.uvSignalEndgame henabled.1 henabled.2
  | start signum registered => exact h.uvSignalStart henabled.1 henabled.2
  | stop =>
    obtain ⟨t, ht, hstop, -⟩ := h.uvSignalStop henabled
    exact ⟨t, ht, hstop⟩
  | close => exact h.uvSignalClose henabled.1 henabled.2 hcareful

theorem init (h : Init s) : Balanced s where
  out := by
    unfold outstanding
    rw [h.completions, h.posting, h.pendingSignum]
    rfl
  tree := by
    rw [h.inTree, h.signum]
    decide
  closing habs := by cases h.closing.symm.trans habs
  queued habs := by cases h.endgameQueued.symm.trans habs
  closed habs := by cases h.closed.symm.trans habs
  inCb habs := by cases h.inCb.symm.trans habs
  watched := by
    rw [h.log, h.signum]
    rfl
  obeys := by
    rw [h.log]
    exact justified_nil

theorem of_reachable (h : Reachable Init (Guarded Careful Step) s) : Balanced s := by
  apply h.invariant_of_guarded
  · exact fun s hs => init hs
  · exact fun s e hs henabled hcareful => hs.next henabled hcareful

end Balanced

/-- A signal is stored exactly while one completion is out, the endgame comes when none is, no
assertion fails, and `signal_cb` is called for what is watched. -/
theorem signalHandle_balanced (h : Reachable Init (Guarded Careful Step) s) :
    (s.pendingSignum ≠ 0 ↔ s.outstanding = 1) ∧ s.outstanding ≤ 1 ∧
    (s.endgameQueued = true ∨ s.closed = true → s.pendingSignum = 0 ∧ s.outstanding = 0) ∧
    Justified Obeys s.log ∧
    ∀ e, s.Enabled e → Careful s e → ∃ t, s.next e = some t := by
  have hs := Balanced.of_reachable h
  have hout := hs.out
  refine ⟨?_, ?_, fun hend => ?_, hs.obeys, fun e henabled hcareful => ?_⟩
  · split_ifs at hout with hpending
    · exact iff_of_false (not_not.mpr hpending) (by omega)
    · exact iff_of_true hpending hout
  · split_ifs at hout <;> omega
  · have hpending :=
      hend.elim (fun hqueued => (hs.queued hqueued).2.2) fun hclosed => (hs.closed hclosed).2.1
    rw [if_pos hpending] at hout
    exact ⟨hpending, hout⟩
  · obtain ⟨t, ht, -⟩ := hs.next henabled hcareful
    exact ⟨t, ht⟩

/-- A handle after `uv_signal_init`. -/
def fresh : SignalHandle where
  signum := 0
  inTree := false
  pendingSignum := 0
  closing := false
  endgameQueued := false
  closed := false
  completions := 0
  posting := false
  inCb := false
  log := []

theorem fresh_init : Init fresh := ⟨rfl, rfl, rfl, rfl, rfl, rfl, rfl, rfl, rfl, rfl⟩

/-- A signal comes while `signal_cb` runs, and the handle is closed later. -/
def signalRun : Option SignalHandle :=
  [Event.start 2 true, .exchange, .post, .process, .exchange, .post, .returned, .close].foldlM
    (fun s e => if Careful s e then s.step e else none) fresh

theorem signalRun_isSome : signalRun.isSome = true := by
  rfl

theorem signalHandle_balanced_signalled : (signalRun.get signalRun_isSome).outstanding = 1 := by
  have hrun : Reachable Init (Guarded Careful Step) (signalRun.get signalRun_isSome) :=
    .of_foldlM_if (.init fresh_init) (Option.some_get signalRun_isSome).symm
  exact (signalHandle_balanced hrun).1.mp (by decide)

/-- A signal comes while `signal_cb` runs, and then `signal_cb` closes the handle. -/
def closingRun : Option SignalHandle :=
  [Event.start 2 true, .exchange, .post, .process, .exchange, .post, .close,
    .returned].foldlM step fresh

theorem closingRun_isSome : closingRun.isSome = true := by
  rfl

/-- The endgame is queued while a completion is out, and its assertion fails. -/
theorem endgame_with_completion : ∃ s, Reachable Init Step s ∧ s.endgameQueued = true ∧
    s.outstanding = 1 ∧ s.Enabled .endgame ∧ s.next .endgame = none := by
  refine ⟨closingRun.get closingRun_isSome,
    ?_, by decide, by decide, by decide, by decide⟩
  exact .of_foldlM (.init fresh_init) (Option.some_get closingRun_isSome).symm

end LibuvWorks.Win.SignalHandle
