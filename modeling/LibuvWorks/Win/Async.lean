import LibuvWorks.Lib.Fairness
import Mathlib.Data.List.Nodup

/-!
# Wake-ups on Windows

A thread that sends exchanges the flag of the handle, and posts its completion packet if the flag
was not set. The loop dequeues packets, and clears the flag when it processes one. A handle that
closes waits for its packet.
-/
namespace LibuvWorks.Win

open List
open Function (update update_of_ne update_self)
open Transition Execution

/-- `uv_async_t`; `known` says that it was initialised, and `starts` counts the calls of its
callback. -/
structure AsyncHandle where
  known : Bool
  closing : Bool
  closed : Bool
  endgameQueued : Bool
  asyncSent : Bool
  asyncCb : Bool
  starts : ℕ

/-- What a call of `uv_async_send` does next. -/
inductive SendStage where
  | exchange : SendStage
  | post : SendStage
  | done : SendStage
  deriving DecidableEq

/-- A call of `uv_async_send` by any thread; `began` is the number of starts when it began. -/
structure SendCall (ι : Type*) where
  handle : ι
  stage : SendStage
  began : ℕ
  deriving DecidableEq

/-- The loop is in or before `uv_process_reqs`, before `uv_poll`, or in `uv_process_endgames`. -/
inductive AsyncPhase where
  | head : AsyncPhase
  | reqs : AsyncPhase
  | poll : AsyncPhase
  | endgames : AsyncPhase
  deriving DecidableEq

/-- `port` are the packets of the completion port, and `reqs` is the local list of
`uv_process_reqs`; the packets of other requests are none. `returned` are the calls that have
returned, with the starts when they began and when they returned. -/
structure AsyncLoop (ι : Type*) where
  handle : ι → AsyncHandle
  port : List (Option ι)
  pendingReqs : List (Option ι)
  reqs : List (Option ι)
  endgames : List ι
  phase : AsyncPhase
  calls : List (SendCall ι)
  returned : List (ι × ℕ × ℕ)

namespace AsyncLoop

variable {ι : Type*} [DecidableEq ι] {batch : ℕ} {s t : AsyncLoop ι} {h k : ι} {v : AsyncHandle}

/-! ### The code -/

def setHandle (s : AsyncLoop ι) (h : ι) (v : AsyncHandle) : AsyncLoop ι :=
  { s with handle := update s.handle h v }

def uvAsyncInit (s : AsyncLoop ι) (h : ι) (asyncCb : Bool) : AsyncLoop ι :=
  s.setHandle h ⟨true, false, false, false, false, asyncCb, 0⟩

def uvWantEndgame (s : AsyncLoop ι) (h : ι) : AsyncLoop ι :=
  if (s.handle h).endgameQueued then s
  else
    { s.setHandle h { s.handle h with endgameQueued := true } with endgames := h :: s.endgames }

/-- `uv_async_close`; none if an assertion fails. -/
def uvAsyncClose (s : AsyncLoop ι) (h : ι) : Option (AsyncLoop ι) :=
  if (s.handle h).closing then none
  else
    let s := if (s.handle h).asyncSent then s else s.uvWantEndgame h
    some (s.setHandle h { s.handle h with closing := true })

def setStage (s : AsyncLoop ι) (c : SendCall ι) (stage : SendStage) : AsyncLoop ι :=
  { s with calls := { c with stage } :: s.calls.erase c }

/-- The next step of a call of `uv_async_send`. -/
def uvAsyncSend (s : AsyncLoop ι) (c : SendCall ι) : AsyncLoop ι :=
  match c.stage with
  | .exchange =>
    if (s.handle c.handle).asyncSent then s.setStage c .done
    else (s.setHandle c.handle { s.handle c.handle with asyncSent := true }).setStage c .post
  | .post => { s.setStage c .done with port := s.port ++ [some c.handle] }
  | .done =>
    { s with
      calls := s.calls.erase c
      returned := s.returned ++ [(c.handle, c.began, (s.handle c.handle).starts)] }

/-- `uv_process_async_wakeup_req`, until the callback. -/
def uvProcessAsyncWakeupReq (s : AsyncLoop ι) (h : ι) : AsyncLoop ι :=
  let s := s.setHandle h { s.handle h with asyncSent := false }
  if (s.handle h).closing then s.uvWantEndgame h
  else if (s.handle h).asyncCb then
    s.setHandle h { s.handle h with starts := (s.handle h).starts + 1 }
  else s

/-- `uv_async_endgame`, until the close callback; none if an assertion fails. -/
def uvAsyncEndgame (s : AsyncLoop ι) (h : ι) : Option (AsyncLoop ι) :=
  if (s.handle h).closing = true ∧ (s.handle h).asyncSent = false then
    if (s.handle h).closed then none
    else some (s.setHandle h { s.handle h with closed := true })
  else some s

/-- The loop goes on, and does not poll. -/
def proceed (s : AsyncLoop ι) : Option (AsyncLoop ι) :=
  match s.phase with
  | .head => some { s with reqs := s.pendingReqs, pendingReqs := [], phase := .reqs }
  | .reqs =>
    match s.reqs with
    | [] => some { s with phase := .poll }
    | none :: reqs => some { s with reqs }
    | some h :: reqs => some ({ s with reqs }.uvProcessAsyncWakeupReq h)
  | .poll => none
  | .endgames =>
    match s.endgames with
    | [] => some { s with phase := .head }
    | h :: endgames =>
      ({ s with endgames }.setHandle h { s.handle h with endgameQueued := false }).uvAsyncEndgame h

/-- `uv_poll`, or `uv_poll_ex` with a batch of packets. -/
def uvPoll (batch : ℕ) (s : AsyncLoop ι) : AsyncLoop ι :=
  { s with
    pendingReqs := s.pendingReqs ++ s.port.take batch
    port := s.port.drop batch
    phase := .endgames }

/-- The user initialises and closes handles, threads send, the loop goes on or polls, other
requests complete, or something else happens. -/
inductive Event (ι : Type*) where
  | init (h : ι) (asyncCb : Bool) : Event ι
  | close (h : ι) : Event ι
  | begin (h : ι) : Event ι
  | send (c : SendCall ι) : Event ι
  | loop : Event ι
  | poll : Event ι
  | posted : Event ι
  | inserted : Event ι
  | idle : Event ι

/-- The events that can happen. The calls are made on open handles: a handle is not closed while a
call has not come to its access to the flag. -/
def Enabled (s : AsyncLoop ι) : Event ι → Prop
  | .init h _ => (s.handle h).known = false
  | .close h => (s.handle h).known = true ∧ (s.handle h).closing = false ∧
      ∀ c ∈ s.calls, c.handle = h → c.stage ≠ .exchange
  | .begin h => (s.handle h).known = true ∧ (s.handle h).closing = false
  | .send c => c ∈ s.calls
  | .loop => s.phase ≠ .poll
  | .poll => s.phase = .poll
  | .posted => True
  | .inserted => True
  | .idle => True

instance (s : AsyncLoop ι) : ∀ e : Event ι, Decidable (Enabled s e)
  | .init _ _ => inferInstanceAs (Decidable (_ = _))
  | .close h => inferInstanceAs (Decidable (_ ∧ _ ∧
      ∀ c ∈ s.calls, c.handle = h → c.stage ≠ .exchange))
  | .begin _ => inferInstanceAs (Decidable (_ ∧ _))
  | .send c => inferInstanceAs (Decidable (c ∈ s.calls))
  | .loop => inferInstanceAs (Decidable (_ ≠ _))
  | .poll => inferInstanceAs (Decidable (_ = _))
  | .posted => .isTrue trivial
  | .inserted => .isTrue trivial
  | .idle => .isTrue trivial

def next (batch : ℕ) (s : AsyncLoop ι) : Event ι → Option (AsyncLoop ι)
  | .init h asyncCb => some (s.uvAsyncInit h asyncCb)
  | .close h => s.uvAsyncClose h
  | .begin h => some { s with calls := ⟨h, .exchange, (s.handle h).starts⟩ :: s.calls }
  | .send c => some (s.uvAsyncSend c)
  | .loop => s.proceed
  | .poll => some (s.uvPoll batch)
  | .posted => some { s with port := s.port ++ [none] }
  | .inserted => some { s with pendingReqs := s.pendingReqs ++ [none] }
  | .idle => some s

def step (batch : ℕ) (s : AsyncLoop ι) (e : Event ι) : Option (AsyncLoop ι) :=
  if Enabled s e then s.next batch e else none

def Step (batch : ℕ) (s : AsyncLoop ι) (e : Event ι) (t : AsyncLoop ι) : Prop :=
  s.step batch e = some t

structure Init (s : AsyncLoop ι) : Prop where
  known : ∀ h, (s.handle h).known = false
  port : s.port = []
  pendingReqs : s.pendingReqs = []
  reqs : s.reqs = []
  endgames : s.endgames = []
  phase : s.phase = .head
  calls : s.calls = []
  returned : s.returned = []

/-! ### What is outstanding -/

/-- The packets of a handle: those that a call will post, and those that the loop has to process. -/
def packets (s : AsyncLoop ι) (h : ι) : ℕ :=
  s.calls.countP (fun c => c.handle = h ∧ c.stage = .post) + s.port.count (some h) +
    s.pendingReqs.count (some h) + s.reqs.count (some h)

/-- The callback started since it had started `n` times, or the handle closes. -/
def Served (h : ι) (n : ℕ) (s : AsyncLoop ι) : Prop :=
  (s.handle h).closing = true ∨ n < (s.handle h).starts

/-- Of `n` starts the handle has had at least as many; it was served since, or its flag is set. -/
def Answers (s : AsyncLoop ι) (h : ι) (n : ℕ) : Prop :=
  n ≤ (s.handle h).starts ∧
    ((s.handle h).asyncCb = true → Served h n s ∨ (s.handle h).asyncSent = true)

structure SoundCall (s : AsyncLoop ι) (c : SendCall ι) : Prop where
  known : (s.handle c.handle).known = true
  began : c.began ≤ (s.handle c.handle).starts
  testing : c.stage = .exchange → (s.handle c.handle).closing = false
  tested : c.stage ≠ .exchange → Answers s c.handle c.began

structure Settled (s : AsyncLoop ι) : Prop where
  packets : ∀ h, s.packets h =
    if (s.handle h).known = true ∧ (s.handle h).asyncSent = true then 1 else 0
  nodup : s.endgames.Nodup
  endgames : ∀ h ∈ s.endgames, (s.handle h).known = true ∧ (s.handle h).closing = true ∧
    (s.handle h).closed = false
  queued : ∀ h, (s.handle h).known = true → ((s.handle h).endgameQueued = true ↔ h ∈ s.endgames)
  closed : ∀ h, (s.handle h).known = true → (s.handle h).closed = true →
    (s.handle h).closing = true ∧ (s.handle h).asyncSent = false
  reqs : s.phase ≠ .reqs → s.reqs = []
  pendingReqs : s.phase = .reqs ∨ s.phase = .poll → ∀ h, some h ∉ s.pendingReqs
  calls : ∀ c ∈ s.calls, SoundCall s c
  returned : ∀ r ∈ s.returned, (s.handle r.1).known = true ∧ Answers s r.1 r.2.1

/-- How a handle that was initialised can change. -/
def Advances (v w : AsyncHandle) : Prop :=
  v.known = true → w.known = true ∧ w.asyncCb = v.asyncCb ∧ v.starts ≤ w.starts ∧
    (v.closing = true → w.closing = true) ∧
    (v.asyncSent = true → v.asyncCb = true →
      w.asyncSent = true ∨ w.closing = true ∨ v.starts < w.starts)

theorem Advances.refl (v : AsyncHandle) : Advances v v :=
  fun hknown => ⟨hknown, rfl, Nat.le_refl _, id, fun hsent _ => .inl hsent⟩

theorem Advances.queue (v : AsyncHandle) (endgameQueued : Bool) :
    Advances v { v with endgameQueued } :=
  fun hknown => ⟨hknown, rfl, Nat.le_refl _, id, fun hsent _ => .inl hsent⟩

theorem Advances.setSent (v : AsyncHandle) : Advances v { v with asyncSent := true } :=
  fun hknown => ⟨hknown, rfl, Nat.le_refl _, id, fun _ _ => .inl rfl⟩

theorem Advances.setClosed (v : AsyncHandle) : Advances v { v with closed := true } :=
  fun hknown => ⟨hknown, rfl, Nat.le_refl _, id, fun hsent _ => .inl hsent⟩

theorem advances_update {f : ι → AsyncHandle} (hadv : Advances (f h) v) (k : ι) :
    Advances (f k) (update f h v k) := by
  by_cases hk : k = h
  · subst hk
    rw [update_self]
    exact hadv
  · rw [update_of_ne hk]
    exact .refl _

theorem Advances.of_fresh {w : AsyncHandle} (hv : v.known = false) : Advances v w := by
  intro hknown
  cases hv.symm.trans hknown

section Frame

omit [DecidableEq ι]

theorem Answers.advance {n : ℕ} (hs : Answers s h n) (hv : (s.handle h).known = true)
    (hadv : Advances (s.handle h) (t.handle h)) : Answers t h n := by
  obtain ⟨hle, hanswers⟩ := hs
  obtain ⟨-, hcb, hstarts, hclosing, hsent⟩ := hadv hv
  refine ⟨Nat.le_trans hle hstarts, fun hset => ?_⟩
  rw [hcb] at hset
  rcases hanswers hset with (hset' | hlt) | hflag
  · exact .inl (.inl (hclosing hset'))
  · exact .inl (.inr (Nat.lt_of_lt_of_le hlt hstarts))
  · rcases hsent hflag hset with hkept | hset' | hlt
    · exact .inr hkept
    · exact .inl (.inl hset')
    · exact .inl (.inr (Nat.lt_of_le_of_lt hle hlt))

theorem SoundCall.advance {c : SendCall ι} (hs : SoundCall s c)
    (hadv : Advances (s.handle c.handle) (t.handle c.handle))
    (hopen : c.stage = .exchange → (t.handle c.handle).closing = false) : SoundCall t c where
  known := (hadv hs.known).1
  began := Nat.le_trans hs.began (hadv hs.known).2.2.1
  testing := hopen
  tested := fun hstage => (hs.tested hstage).advance hs.known hadv

end Frame

/-! ### One event -/

/-- A handle changes; `hpackets` and what follows it say what has to be looked at. -/
theorem Settled.update (hs : Settled s)
    (hhandle : t.handle = update s.handle h v) (hadv : Advances (s.handle h) v)
    (hpackets : ∀ k, t.packets k =
      if (t.handle k).known = true ∧ (t.handle k).asyncSent = true then 1 else 0)
    (hlists : t.endgames = s.endgames ∧ (t.phase ≠ .reqs → t.reqs = []) ∧
      (t.phase = .reqs ∨ t.phase = .poll → ∀ h, some h ∉ t.pendingReqs))
    (hqueued : v.endgameQueued = true ↔ h ∈ s.endgames)
    (hclosing : h ∈ s.endgames → v.known = true ∧ v.closing = true ∧ v.closed = false)
    (hclosed : v.closed = true → v.closing = true ∧ v.asyncSent = false)
    (hcalls : ∀ c ∈ t.calls, c ∈ s.calls ∨ SoundCall t c)
    (htesting : ∀ c ∈ s.calls, c.handle = h → c.stage = .exchange → v.closing = false)
    (hreturned : t.returned = s.returned) : Settled t := by
  have hself : t.handle h = v := by
    rw [hhandle]
    exact update_self ..
  have hother {k : ι} (hk : k ≠ h) : t.handle k = s.handle k := by
    rw [hhandle]
    exact update_of_ne hk ..
  have hadvance (k : ι) : Advances (s.handle k) (t.handle k) := by
    rw [hhandle]
    exact advances_update hadv k
  obtain ⟨hendgames, hreqs, hpending⟩ := hlists
  refine ⟨hpackets, hendgames ▸ hs.nodup, ?_, ?_, ?_, hreqs, hpending, ?_, ?_⟩
  · rw [hendgames]
    intro k hk
    by_cases hkh : k = h
    · subst hkh
      exact hself ▸ hclosing hk
    · exact hother hkh ▸ hs.endgames k hk
  · rw [hendgames]
    intro k hk
    by_cases hkh : k = h
    · subst hkh
      exact hself ▸ hqueued
    · rw [hother hkh] at hk ⊢
      exact hs.queued k hk
  · intro k hk hset
    by_cases hkh : k = h
    · subst hkh
      rw [hself] at hset ⊢
      exact hclosed hset
    · rw [hother hkh] at hk hset ⊢
      exact hs.closed k hk hset
  · intro c hc
    rcases hcalls c hc with hc | hsound
    · apply (hs.calls c hc).advance (hadvance _)
      intro hstage
      by_cases hch : c.handle = h
      · rw [hch, hself]
        exact htesting c hc hch hstage
      · rw [hother hch]
        exact (hs.calls c hc).testing hstage
    · exact hsound
  · rw [hreturned]
    intro r hr
    obtain ⟨hknown, hanswers⟩ := hs.returned r hr
    exact ⟨(hadvance r.1 hknown).1, hanswers.advance hknown (hadvance r.1)⟩

theorem Settled.packets_setHandle (hs : Settled s)
    (hv : v.known = (s.handle h).known ∧ v.asyncSent = (s.handle h).asyncSent) (k : ι) :
    (s.setHandle h v).packets k = if ((s.setHandle h v).handle k).known = true ∧
      ((s.setHandle h v).handle k).asyncSent = true then 1 else 0 := by
  have hpackets := hs.packets k
  by_cases hk : k = h
  · subst hk
    have hself : (s.setHandle k v).handle k = v := update_self ..
    rw [hself, hv.1, hv.2]
    exact hpackets
  · have hother : (s.setHandle h v).handle k = s.handle k := update_of_ne hk ..
    rw [hother]
    exact hpackets

theorem Settled.init (hs : Settled s) (hfresh : (s.handle h).known = false) (asyncCb : Bool) :
    Settled (s.uvAsyncInit h asyncCb) := by
  have hnew : h ∉ s.endgames := by
    intro hmem
    cases hfresh.symm.trans (hs.endgames h hmem).1
  refine hs.update rfl (.of_fresh hfresh) ?_ ⟨rfl, hs.reqs, hs.pendingReqs⟩ ?_ ?_ nofun
    (fun c hc => .inl hc) (fun _ _ _ _ => rfl) rfl
  · intro k
    have hpackets := hs.packets k
    by_cases hk : k = h
    · subst hk
      have hself : (s.uvAsyncInit k asyncCb).handle k = ⟨true, false, false, false, false,
        asyncCb, 0⟩ := update_self ..
      rw [hfresh, if_neg (by simp)] at hpackets
      rw [hself, if_neg (by simp)]
      exact hpackets
    · have hother : (s.uvAsyncInit h asyncCb).handle k = s.handle k :=
        update_of_ne hk ..
      rw [hother]
      exact hpackets
  · exact iff_of_false nofun hnew
  · exact fun hmem => absurd hmem hnew

theorem Settled.wantEndgame (hs : Settled s) (hknown : (s.handle h).known = true)
    (hclosing : (s.handle h).closing = true) (hclosed : (s.handle h).closed = false) :
    Settled (s.uvWantEndgame h) := by
  rw [uvWantEndgame]
  by_cases hqueued : (s.handle h).endgameQueued = true
  · rw [if_pos hqueued]
    exact hs
  · rw [if_neg hqueued]
    let v : AsyncHandle := { s.handle h with endgameQueued := true }
    let t : AsyncLoop ι := { s.setHandle h v with endgames := h :: s.endgames }
    have hself : t.handle h = v := update_self ..
    have hother {k : ι} (hk : k ≠ h) : t.handle k = s.handle k := update_of_ne hk ..
    have hadv (k : ι) : Advances (s.handle k) (t.handle k) := advances_update (.queue _ _) k
    have hnew : h ∉ s.endgames := fun hmem => hqueued ((hs.queued h hknown).mpr hmem)
    refine ⟨hs.packets_setHandle ⟨rfl, rfl⟩, nodup_cons.mpr ⟨hnew, hs.nodup⟩, ?_, ?_, ?_,
      hs.reqs, hs.pendingReqs, ?_, ?_⟩
    · intro k hk
      by_cases hkh : k = h
      · subst hkh
        rw [hself]
        exact ⟨hknown, hclosing, hclosed⟩
      · rw [hother hkh]
        exact hs.endgames k ((mem_cons.mp hk).resolve_left hkh)
    · intro k hk
      by_cases hkh : k = h
      · subst hkh
        rw [hself]
        exact iff_of_true rfl mem_cons_self
      · rw [hother hkh] at hk ⊢
        rw [hs.queued k hk, mem_cons]
        exact (or_iff_right hkh).symm
    · intro k hk hset
      by_cases hkh : k = h
      · subst hkh
        rw [hself] at hset
        cases hclosed.symm.trans hset
      · rw [hother hkh] at hk hset ⊢
        exact hs.closed k hk hset
    · intro c hc
      have hsound := hs.calls c hc
      apply hsound.advance (hadv _)
      intro hstage
      by_cases hch : c.handle = h
      · cases (hch ▸ hsound.testing hstage).symm.trans hclosing
      · rw [hother hch]
        exact hsound.testing hstage
    · intro r hr
      obtain ⟨hr', hanswers⟩ := hs.returned r hr
      exact ⟨(hadv r.1 hr').1, hanswers.advance hr' (hadv r.1)⟩

theorem uvWantEndgame_closing (s : AsyncLoop ι) (h : ι) :
    (s.uvWantEndgame h).setHandle h { (s.uvWantEndgame h).handle h with closing := true } =
      (s.setHandle h { s.handle h with closing := true }).uvWantEndgame h := by
  have hself (v : AsyncHandle) : (s.setHandle h v).handle h = v := update_self ..
  rw [uvWantEndgame, uvWantEndgame, hself]
  by_cases hqueued : (s.handle h).endgameQueued = true
  · rw [if_pos hqueued, if_pos hqueued]
  · rw [if_neg hqueued, if_neg hqueued]
    simp [setHandle]

theorem Settled.close (hs : Settled s) (hknown : (s.handle h).known = true)
    (hopen : (s.handle h).closing = false)
    (hcalls : ∀ c ∈ s.calls, c.handle = h → c.stage ≠ .exchange) :
    ∃ t, s.uvAsyncClose h = some t ∧ Settled t := by
  have hnew : h ∉ s.endgames := by
    intro hmem
    cases hopen.symm.trans (hs.endgames h hmem).2.1
  have hundone : (s.handle h).closed = false := by
    by_contra hclosed
    cases hopen.symm.trans (hs.closed h hknown (by simpa using hclosed)).1
  have hmarked : Settled (s.setHandle h { s.handle h with closing := true }) := by
    refine hs.update rfl ?_ (hs.packets_setHandle ⟨rfl, rfl⟩) ⟨rfl, hs.reqs, hs.pendingReqs⟩
      (hs.queued h hknown) (fun hmem => absurd hmem hnew) ?_ (fun c hc => .inl hc) ?_ rfl
    · exact fun _ => ⟨hknown, rfl, Nat.le_refl _, fun _ => rfl, fun hsent _ => .inl hsent⟩
    · intro hclosed
      cases hundone.symm.trans hclosed
    · exact fun c hc hch hstage => absurd hstage (hcalls c hc hch)
  have hself : (s.setHandle h { s.handle h with closing := true }).handle h =
      { s.handle h with closing := true } := update_self ..
  rw [uvAsyncClose, if_neg (by simp [hopen])]
  by_cases hsent : (s.handle h).asyncSent = true
  · dsimp only
    rw [if_pos hsent]
    exact ⟨_, rfl, hmarked⟩
  · dsimp only
    rw [if_neg hsent, uvWantEndgame_closing]
    refine ⟨_, rfl, hmarked.wantEndgame ?_ ?_ ?_⟩
    · rw [hself]
      exact hknown
    · rw [hself]
    · rw [hself]
      exact hundone

/-- Nothing changes but the lists, and the packets of the handles are counted as before. -/
theorem Settled.lists (hs : Settled s) (hhandle : t.handle = s.handle)
    (hpackets : ∀ k, t.packets k = s.packets k)
    (hlists : t.endgames = s.endgames ∧ (t.phase ≠ .reqs → t.reqs = []) ∧
      (t.phase = .reqs ∨ t.phase = .poll → ∀ h, some h ∉ t.pendingReqs))
    (hcalls : ∀ c ∈ t.calls, SoundCall s c)
    (hreturned : ∀ r ∈ t.returned, (s.handle r.1).known = true ∧ Answers s r.1 r.2.1) :
    Settled t := by
  obtain ⟨hendgames, hreqs, hpending⟩ := hlists
  refine ⟨?_, hendgames ▸ hs.nodup, ?_, ?_, hhandle ▸ hs.closed, hreqs, hpending, ?_, ?_⟩
  · intro k
    rw [hpackets, hhandle]
    exact hs.packets k
  · rw [hendgames, hhandle]
    exact hs.endgames
  · rw [hendgames, hhandle]
    exact hs.queued
  · intro c hc
    have hsound := hcalls c hc
    apply hsound.advance (hhandle ▸ .refl _)
    rw [hhandle]
    exact hsound.testing
  · intro r hr
    obtain ⟨hknown, hanswers⟩ := hreturned r hr
    exact ⟨hhandle ▸ hknown, hanswers.advance hknown (hhandle ▸ .refl _)⟩

section

variable {c : SendCall ι}

theorem countP_setStage (hc : c ∈ s.calls) (stage : SendStage) (k : ι) :
    (s.setStage c stage).calls.countP (fun c => c.handle = k ∧ c.stage = .post) +
        (if c.handle = k ∧ c.stage = .post then 1 else 0) =
      s.calls.countP (fun c => c.handle = k ∧ c.stage = .post) +
        if c.handle = k ∧ stage = .post then 1 else 0 := by
  have hperm := perm_cons_erase hc
  rw [hperm.countP_eq, setStage, countP_cons, countP_cons]
  simp only [decide_eq_true_eq]
  omega

theorem Settled.setStage (hs : Settled s) (hc : c ∈ s.calls) {stage : SendStage}
    (hpost : c.stage ≠ .post ∧ stage ≠ .post) (hsound : SoundCall s { c with stage }) :
    Settled (s.setStage c stage) := by
  refine hs.lists rfl ?_ ⟨rfl, hs.reqs, hs.pendingReqs⟩ ?_ hs.returned
  · intro k
    have hcount := countP_setStage hc stage k
    rw [if_neg fun h => hpost.1 h.2, if_neg fun h => hpost.2 h.2] at hcount
    change (s.setStage c stage).calls.countP _ + s.port.count (some k) +
      s.pendingReqs.count (some k) + s.reqs.count (some k) = s.packets k
    rw [AsyncLoop.packets]
    omega
  · intro d hd
    rcases mem_cons.mp hd with rfl | hd
    · exact hsound
    · exact hs.calls d (mem_of_mem_erase hd)

theorem Settled.setSent (hs : Settled s) (hc : c ∈ s.calls)
    (hstage : c.stage = .exchange) (hsent : (s.handle c.handle).asyncSent = false) :
    Settled ((s.setHandle c.handle { s.handle c.handle with asyncSent := true }).setStage c
      .post) := by
  let v : AsyncHandle := { s.handle c.handle with asyncSent := true }
  let t := (s.setHandle c.handle v).setStage c .post
  have hsound := hs.calls c hc
  have hself : t.handle c.handle = v := update_self ..
  have hadv (k : ι) : Advances (s.handle k) (t.handle k) := advances_update (.setSent _) k
  have hopen := hsound.testing hstage
  have hundone : (s.handle c.handle).closed = false := by
    by_contra hclosed
    cases hopen.symm.trans (hs.closed _ hsound.known (by simpa using hclosed)).1
  refine hs.update rfl (.setSent _) ?_ ⟨rfl, hs.reqs, hs.pendingReqs⟩
    (hs.queued _ hsound.known) (hs.endgames _) ?_ ?_ ?_ rfl
  · intro k
    have hcount := countP_setStage hc .post k
    rw [if_neg fun h => by simp [hstage] at h] at hcount
    have hpackets := hs.packets k
    change (s.setStage c .post).calls.countP _ + s.port.count (some k) +
      s.pendingReqs.count (some k) + s.reqs.count (some k) = _
    rw [AsyncLoop.packets] at hpackets
    by_cases hk : k = c.handle
    · subst hk
      rw [if_pos ⟨rfl, rfl⟩] at hcount
      rw [hsent, if_neg (by simp)] at hpackets
      rw [hself, if_pos ⟨hsound.known, rfl⟩]
      omega
    · have hother : t.handle k = s.handle k := update_of_ne hk ..
      rw [if_neg fun h => hk h.1.symm] at hcount
      rw [hother, ← hpackets]
      omega
  · intro hclosed
    cases hundone.symm.trans hclosed
  · intro d hd
    rcases mem_cons.mp hd with rfl | hd
    · refine .inr ⟨(hadv _ hsound.known).1, ?_, nofun, fun _ => ⟨?_, fun _ => .inr ?_⟩⟩
      · exact Nat.le_trans hsound.began (hadv _ hsound.known).2.2.1
      · exact Nat.le_trans hsound.began (hadv _ hsound.known).2.2.1
      · exact congrArg AsyncHandle.asyncSent hself
    · exact .inl (mem_of_mem_erase hd)
  · exact fun d hd hdc hdstage => hdc ▸ (hs.calls d hd).testing hdstage

theorem Settled.post (hs : Settled s) (hc : c ∈ s.calls)
    (hstage : c.stage = .post) :
    Settled { s.setStage c .done with port := s.port ++ [some c.handle] } := by
  refine hs.lists rfl ?_ ⟨rfl, hs.reqs, hs.pendingReqs⟩ ?_ hs.returned
  · intro k
    have hcount := countP_setStage hc .done k
    rw [if_neg (c := c.handle = k ∧ SendStage.done = .post) fun h => nomatch h.2] at hcount
    change (s.setStage c .done).calls.countP _ + (s.port ++ [some c.handle]).count (some k) +
      s.pendingReqs.count (some k) + s.reqs.count (some k) = s.packets k
    rw [AsyncLoop.packets, count_append, count_singleton]
    by_cases hk : c.handle = k
    · rw [if_pos ⟨hk, hstage⟩] at hcount
      rw [if_pos (by simp [hk])]
      omega
    · rw [if_neg fun h => hk h.1] at hcount
      rw [if_neg (by simpa using hk)]
      omega
  · intro d hd
    rcases mem_cons.mp hd with rfl | hd
    · have hsound := hs.calls c hc
      exact ⟨hsound.known, hsound.began, nofun, fun _ => hsound.tested (by simp [hstage])⟩
    · exact hs.calls d (mem_of_mem_erase hd)

theorem Settled.leave (hs : Settled s) (hc : c ∈ s.calls)
    (hstage : c.stage = .done) : Settled { s with
      calls := s.calls.erase c
      returned := s.returned ++ [(c.handle, c.began, (s.handle c.handle).starts)] } := by
  refine hs.lists rfl ?_ ⟨rfl, hs.reqs, hs.pendingReqs⟩ ?_ ?_
  · intro k
    have hperm := perm_cons_erase hc
    rw [AsyncLoop.packets, AsyncLoop.packets, hperm.countP_eq, countP_cons,
      if_neg (by simp [hstage]), Nat.add_zero]
  · exact fun d hd => hs.calls d (mem_of_mem_erase hd)
  · intro r hr
    rcases mem_append.mp hr with hr | hr
    · exact hs.returned r hr
    · obtain rfl := mem_singleton.mp hr
      have hsound := hs.calls c hc
      exact ⟨hsound.known, hsound.tested (by simp [hstage])⟩

theorem Settled.send (hs : Settled s) (hc : c ∈ s.calls) :
    Settled (s.uvAsyncSend c) := by
  have hsound := hs.calls c hc
  rw [uvAsyncSend]
  cases hstage : c.stage with
  | exchange =>
    dsimp only
    split
    · refine hs.setStage hc ⟨by simp [hstage], nofun⟩ ⟨hsound.known, hsound.began, nofun, ?_⟩
      exact fun _ => ⟨hsound.began, fun _ => .inr ‹_›⟩
    · exact hs.setSent hc hstage (Bool.eq_false_iff.mpr ‹_›)
  | post => exact hs.post hc hstage
  | done => exact hs.leave hc hstage

end

theorem Settled.beginSend (hs : Settled s) (hknown : (s.handle h).known = true)
    (hopen : (s.handle h).closing = false) :
    Settled { s with calls := ⟨h, .exchange, (s.handle h).starts⟩ :: s.calls } := by
  refine hs.lists rfl ?_ ⟨rfl, hs.reqs, hs.pendingReqs⟩ ?_ hs.returned
  · intro k
    rw [AsyncLoop.packets, AsyncLoop.packets, countP_cons, if_neg (by simp), Nat.add_zero]
  · intro d hd
    rcases mem_cons.mp hd with rfl | hd
    · exact ⟨hknown, Nat.le_refl _, fun _ => hopen, fun hne => absurd rfl hne⟩
    · exact hs.calls d hd

/-- The wake-up of a handle is processed: its flag was set, and it is cleared. -/
theorem Settled.process {reqs : List (Option ι)} (hs : Settled s) (hphase : s.phase = .reqs)
    (hreqs : s.reqs = some h :: reqs) : Settled ({ s with reqs }.uvProcessAsyncWakeupReq h) := by
  have hpackets := hs.packets h
  have hcount : s.reqs.count (some h) = reqs.count (some h) + 1 := by
    rw [hreqs, count_cons_self]
  have hflag : (s.handle h).known = true ∧ (s.handle h).asyncSent = true := by
    by_contra hnot
    rw [if_neg hnot, AsyncLoop.packets] at hpackets
    omega
  obtain ⟨hknown, hsent⟩ := hflag
  have hundone : (s.handle h).closed = false := by
    by_contra hclosed
    cases (hs.closed h hknown (by simpa using hclosed)).2.symm.trans hsent
  -- the packet and the flag go together
  have hcleared (v : AsyncHandle) (hv : v.known = true ∧ v.asyncSent = false) (k : ι) :
      ({ s with reqs }.setHandle h v).packets k =
        if (({ s with reqs }.setHandle h v).handle k).known = true ∧
          (({ s with reqs }.setHandle h v).handle k).asyncSent = true then 1 else 0 := by
    have hpackets := hs.packets k
    change s.calls.countP _ + s.port.count (some k) + s.pendingReqs.count (some k) +
      reqs.count (some k) = _
    rw [AsyncLoop.packets, hreqs, count_cons] at hpackets
    by_cases hk : k = h
    · subst hk
      have hself : ({ s with reqs }.setHandle k v).handle k = v := update_self ..
      rw [if_pos (beq_self_eq_true _), if_pos ⟨hknown, hsent⟩] at hpackets
      rw [hself, if_neg (by simp [hv.2])]
      omega
    · have hother : ({ s with reqs }.setHandle h v).handle k = s.handle k :=
        update_of_ne hk ..
      rw [if_neg (by simpa using fun h => hk h.symm)] at hpackets
      rw [hother, ← hpackets]
      rfl
  have hlists : s.endgames = s.endgames ∧ (s.phase ≠ .reqs → reqs = []) ∧
      (s.phase = .reqs ∨ s.phase = .poll → ∀ h, some h ∉ s.pendingReqs) :=
    ⟨rfl, fun hne => absurd hphase hne, hs.pendingReqs⟩
  have hself (v : AsyncHandle) : ({ s with reqs }.setHandle h v).handle h = v :=
    update_self ..
  rw [uvProcessAsyncWakeupReq]
  dsimp only
  rw [hself]
  by_cases hclosing : (s.handle h).closing = true
  · rw [if_pos hclosing]
    have hcleared :
        Settled ({ s with reqs }.setHandle h { s.handle h with asyncSent := false }) := by
      refine hs.update rfl ?_ (hcleared _ ⟨hknown, rfl⟩) hlists (hs.queued h hknown)
        (hs.endgames h) ?_ (fun c hc => .inl hc) ?_ rfl
      · exact fun _ => ⟨hknown, rfl, Nat.le_refl _, id, fun _ _ => .inr (.inl hclosing)⟩
      · exact fun _ => ⟨hclosing, rfl⟩
      · exact fun c hc hch hstage => hch ▸ (hs.calls c hc).testing hstage
    apply hcleared.wantEndgame
    · rw [hself]
      exact hknown
    · rw [hself]
      exact hclosing
    · rw [hself]
      exact hundone
  · rw [if_neg hclosing]
    have hnew : h ∉ s.endgames := fun hmem => hclosing (hs.endgames h hmem).2.1
    have hnever (v : AsyncHandle) (hv : v.closed = (s.handle h).closed) : v.closed = true →
        v.closing = true ∧ v.asyncSent = false := by
      intro hclosed
      cases (hv ▸ hclosed).symm.trans hundone
    by_cases hcb : (s.handle h).asyncCb = true
    · have htwice : ({ s with reqs }.setHandle h { s.handle h with asyncSent := false }).setHandle h
          { s.handle h with asyncSent := false, starts := (s.handle h).starts + 1 } =
          { s with reqs }.setHandle h
            { s.handle h with asyncSent := false, starts := (s.handle h).starts + 1 } := by
        simp [setHandle]
      rw [if_pos hcb, htwice]
      refine hs.update rfl ?_ (hcleared _ ⟨hknown, rfl⟩) hlists (hs.queued h hknown)
        (fun hmem => absurd hmem hnew) (hnever _ rfl) (fun c hc => .inl hc) ?_ rfl
      · exact fun _ => ⟨hknown, rfl, Nat.le_succ _, id, fun _ _ => .inr (.inr (Nat.lt_succ_self _))⟩
      · exact fun c hc hch hstage => hch ▸ (hs.calls c hc).testing hstage
    · rw [if_neg hcb]
      refine hs.update rfl ?_ (hcleared _ ⟨hknown, rfl⟩) hlists (hs.queued h hknown)
        (fun hmem => absurd hmem hnew) (hnever _ rfl) (fun c hc => .inl hc) ?_ rfl
      · exact fun _ => ⟨hknown, rfl, Nat.le_refl _, id, fun _ hset => absurd hset hcb⟩
      · exact fun c hc hch hstage => hch ▸ (hs.calls c hc).testing hstage

theorem Settled.endgame {endgames : List ι} (hs : Settled s) (hqueue : s.endgames = h :: endgames) :
    ∃ t, ({ s with endgames }.setHandle h { s.handle h with
      endgameQueued := false }).uvAsyncEndgame h = some t ∧ Settled t := by
  have hnodup := hs.nodup
  rw [hqueue] at hnodup
  obtain ⟨hgone, hnodup⟩ := nodup_cons.mp hnodup
  obtain ⟨hknown, hclosing, hundone⟩ := hs.endgames h (by simp [hqueue])
  let v : AsyncHandle := { s.handle h with endgameQueued := false }
  let u : AsyncLoop ι := { s with endgames }.setHandle h v
  have hself : u.handle h = v := update_self ..
  have hother {k : ι} (hk : k ≠ h) : u.handle k = s.handle k := update_of_ne hk ..
  have hadv (k : ι) : Advances (s.handle k) (u.handle k) := advances_update (.queue _ _) k
  have hu : Settled u := by
    refine ⟨hs.packets_setHandle (v := v) ⟨rfl, rfl⟩, hnodup, ?_, ?_, ?_, hs.reqs, hs.pendingReqs,
      ?_, ?_⟩
    · intro k hk
      rw [hother (ne_of_mem_of_not_mem hk hgone)]
      exact hs.endgames k (hqueue ▸ mem_cons_of_mem h hk)
    · intro k hk
      by_cases hkh : k = h
      · subst hkh
        rw [hself]
        exact iff_of_false nofun hgone
      · rw [hother hkh] at hk ⊢
        rw [hs.queued k hk, hqueue, mem_cons]
        exact or_iff_right hkh
    · intro k hk hset
      by_cases hkh : k = h
      · subst hkh
        rw [hself] at hset
        cases hundone.symm.trans hset
      · rw [hother hkh] at hk hset ⊢
        exact hs.closed k hk hset
    · intro c hc
      have hsound := hs.calls c hc
      apply hsound.advance (hadv _)
      intro hstage
      by_cases hch : c.handle = h
      · cases (hch ▸ hsound.testing hstage).symm.trans hclosing
      · rw [hother hch]
        exact hsound.testing hstage
    · intro r hr
      obtain ⟨hr', hanswers⟩ := hs.returned r hr
      exact ⟨(hadv r.1 hr').1, hanswers.advance hr' (hadv r.1)⟩
  change ∃ t, u.uvAsyncEndgame h = some t ∧ Settled t
  rw [uvAsyncEndgame, hself]
  by_cases hsent : v.closing = true ∧ v.asyncSent = false
  · rw [if_pos hsent, if_neg (by simpa using hundone)]
    refine ⟨_, rfl, hu.update rfl (hself ▸ .setClosed _) (hu.packets_setHandle ?_)
      ⟨rfl, hu.reqs, hu.pendingReqs⟩ (iff_of_false nofun hgone) (fun hmem => absurd hmem hgone)
      (fun _ => hsent) (fun c hc => .inl hc) ?_ rfl⟩
    · rw [hself]
      exact ⟨rfl, rfl⟩
    · intro c hc hch hstage
      have hopen := (hu.calls c hc).testing hstage
      rw [hch, hself] at hopen
      exact hopen
  · rw [if_neg hsent]
    exact ⟨u, rfl, hu⟩

theorem Settled.proceed (hs : Settled s) (henabled : s.phase ≠ .poll) :
    ∃ t, s.proceed = some t ∧ Settled t := by
  rw [AsyncLoop.proceed]
  cases hphase : s.phase with
  | head =>
    have hreqs := hs.reqs (by simp [hphase])
    refine ⟨_, rfl, hs.lists rfl ?_ ⟨rfl, fun hne => absurd rfl hne, ?_⟩ hs.calls hs.returned⟩
    · intro k
      rw [AsyncLoop.packets, AsyncLoop.packets, hreqs]
      simp
    · exact fun _ _ => not_mem_nil
  | reqs =>
    cases hreqs : s.reqs with
    | nil =>
      refine ⟨_, rfl, hs.lists rfl ?_ ⟨rfl, fun _ => rfl, ?_⟩ hs.calls hs.returned⟩
      · intro k
        rw [AsyncLoop.packets, AsyncLoop.packets, hreqs]
      · exact fun _ => hs.pendingReqs (.inl hphase)
    | cons req reqs =>
      cases req with
      | none =>
        refine ⟨_, rfl, hs.lists rfl ?_ ⟨rfl, fun hne => absurd rfl hne, ?_⟩ hs.calls hs.returned⟩
        · intro k
          rw [AsyncLoop.packets, AsyncLoop.packets, hreqs]
          simp
        · exact fun _ => hs.pendingReqs (.inl hphase)
      | some h =>
        have hprocessed := hs.process hphase hreqs
        rw [hphase] at hprocessed
        exact ⟨_, rfl, hprocessed⟩
  | poll => exact absurd hphase henabled
  | endgames =>
    cases hqueue : s.endgames with
    | nil =>
      have hreqs := hs.reqs (by simp [hphase])
      refine ⟨_, rfl, hs.lists rfl (fun _ => rfl) ⟨hqueue.symm, fun _ => hreqs, ?_⟩ hs.calls
        hs.returned⟩
      rintro (hhead | hhead) <;> cases hhead
    | cons h endgames =>
      have hclosed := hs.endgame hqueue
      rw [hphase] at hclosed
      exact hclosed

theorem Settled.poll (hs : Settled s) (hphase : s.phase = .poll) (batch : ℕ) :
    Settled (s.uvPoll batch) := by
  have hreqs := hs.reqs (by simp [hphase])
  refine hs.lists rfl ?_ ⟨rfl, fun _ => hreqs, ?_⟩ hs.calls hs.returned
  · intro k
    have hsplit := congrArg (List.count (some k)) (take_append_drop batch s.port)
    rw [count_append] at hsplit
    change s.calls.countP _ + (s.port.drop batch).count (some k) +
      (s.pendingReqs ++ s.port.take batch).count (some k) + s.reqs.count (some k) = s.packets k
    rw [AsyncLoop.packets, count_append]
    omega
  · rintro (hother | hother) <;> cases hother

theorem Settled.step (hs : Settled s) (batch : ℕ) {e : Event ι} (henabled : Enabled s e) :
    ∃ t, s.step batch e = some t ∧ Settled t := by
  rw [AsyncLoop.step, if_pos henabled]
  cases e with
  | init h asyncCb => exact ⟨_, rfl, hs.init henabled asyncCb⟩
  | close h => exact hs.close henabled.1 henabled.2.1 henabled.2.2
  | begin h => exact ⟨_, rfl, hs.beginSend henabled.1 henabled.2⟩
  | send c => exact ⟨_, rfl, hs.send henabled⟩
  | loop => exact hs.proceed henabled
  | poll => exact ⟨_, rfl, hs.poll henabled batch⟩
  | posted =>
    refine ⟨_, rfl, hs.lists rfl ?_ ⟨rfl, hs.reqs, hs.pendingReqs⟩ hs.calls hs.returned⟩
    intro k
    simp [AsyncLoop.packets]
  | inserted =>
    refine ⟨_, rfl, hs.lists rfl ?_ ⟨rfl, hs.reqs, ?_⟩ hs.calls hs.returned⟩
    · intro k
      simp [AsyncLoop.packets]
    · intro hphase h hmem
      exact hs.pendingReqs hphase h (by simpa using hmem)
  | idle => exact ⟨s, rfl, hs⟩

theorem Settled.of_init (h : Init s) : Settled s := by
  obtain ⟨hknown, hport, hpending, hreqs, hendgames, hphase, hcalls, hreturned⟩ := h
  constructor
  · simp [AsyncLoop.packets, hcalls, hport, hpending, hreqs, hknown]
  · simp [hendgames]
  · simp [hendgames]
  · simp [hknown]
  · simp [hknown]
  · exact fun _ => hreqs
  · simp [hpending]
  · simp [hcalls]
  · simp [hreturned]

theorem Settled.of_reachable (h : Reachable Init (Step batch) s) : Settled s := by
  apply h.invariant (fun s hinit => .of_init hinit)
  intro s e t _ hs hstep
  obtain ⟨henabled, -⟩ := Option.ite_none_right_eq_some.mp hstep
  obtain ⟨u, hu, hsettled⟩ := hs.step batch henabled
  rwa [Option.some.inj (hstep.symm.trans hu)]

end AsyncLoop

end LibuvWorks.Win
