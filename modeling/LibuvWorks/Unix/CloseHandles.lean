import LibuvWorks.Lib.Fairness
import LibuvWorks.Lib.LinkedStack
import Mathlib.Data.List.Nodup

/-!
# Close callbacks on unix

`uv_close` pushes a handle on a list that is linked through the handles themselves, and a pass of
`uv__run_closing_handles` detaches the list and walks it. The callbacks that a pass runs can close
other handles, and free the memory of those whose callback was called.
-/
namespace LibuvWorks.Unix

open List Option Function Nat
open Function (update update_eq_self update_of_ne update_self)
open Transition LinkedStack

/-- The types that `uv_close` knows. -/
inductive HandleType where
  | namedPipe : HandleType
  | tty : HandleType
  | tcp : HandleType
  | udp : HandleType
  | prepare : HandleType
  | check : HandleType
  | idle : HandleType
  | async : HandleType
  | timer : HandleType
  | process : HandleType
  | fsEvent : HandleType
  | poll : HandleType
  | fsPoll : HandleType
  | signal : HandleType
  deriving DecidableEq

/-- The types for which `uv__finish_close` calls the callbacks of the requests that are left. -/
def HandleType.destroyed : HandleType → Bool
  | .namedPipe | .tcp | .tty | .udp => true
  | _ => false

structure ClosableHandle (ι γ : Type*) where
  type : HandleType
  closing : Bool
  closed : Bool
  closeCb : Option γ
  nextClosing : Option ι
  caughtSignals : ℕ
  dispatchedSignals : ℕ

/-- Where the loop is: not in `uv__run_closing_handles`, at its `while`, in the callbacks of
requests of `p`, or in a close callback; `q` is the saved pointer. -/
inductive ClosingPhase (ι : Type*) where
  | elsewhere : ClosingPhase ι
  | walk (p : Option ι) : ClosingPhase ι
  | destroy (p : ι) (q : Option ι) : ClosingPhase ι
  | closeCb (q : Option ι) : ClosingPhase ι
  deriving DecidableEq

/-- A loop with the memory of its handles. `passes` is the number of passes that have begun, `live`
are the handles that were initialised and not freed, `pendingAt` says after how many passes a
handle was made pending, and `calls` are the calls of its close callback, with their pass. -/
structure ClosingLoop (ι γ : Type*) where
  handle : ι → ClosableHandle ι γ
  closingHandles : Option ι
  handleQueue : List ι
  phase : ClosingPhase ι
  passes : ℕ
  live : ι → Bool
  pendingAt : ι → Option ℕ
  calls : ι → List (γ × ℕ)

def ClosingPhase.runsUser {ι : Type*} : ClosingPhase ι → Bool
  | .walk _ => false
  | _ => true

/-- What the loop has to walk yet. -/
def ClosingPhase.rest {ι : Type*} : ClosingPhase ι → Option ι
  | .elsewhere => none
  | .walk p => p
  | .destroy _ q => q
  | .closeCb q => q

namespace ClosingLoop

variable {ι γ : Type*} [DecidableEq ι] {s t : ClosingLoop ι γ} {h k : ι} {ls ws ls' ws' : List ι}

/-! ### The code -/

def setHandle (s : ClosingLoop ι γ) (h : ι) (v : ClosableHandle ι γ) : ClosingLoop ι γ :=
  { s with handle := update s.handle h v }

/-- `uv__handle_init`; it leaves the link and the callback as they were. -/
def uvHandleInit (s : ClosingLoop ι γ) (h : ι) (type : HandleType) : ClosingLoop ι γ :=
  { s.setHandle h { s.handle h with
      type, closing := false, closed := false, caughtSignals := 0, dispatchedSignals := 0 } with
    handleQueue := s.handleQueue ++ [h]
    live := update s.live h true
    pendingAt := update s.pendingAt h none
    calls := update s.calls h [] }

/-- `uv__make_close_pending`; none if an assertion fails. -/
def uvMakeClosePending (s : ClosingLoop ι γ) (h : ι) : Option (ClosingLoop ι γ) :=
  if (s.handle h).closing = true ∧ (s.handle h).closed = false then
    some { s.setHandle h { s.handle h with nextClosing := s.closingHandles } with
      closingHandles := some h
      pendingAt := update s.pendingAt h (some s.passes) }
  else none

def uvClose (s : ClosingLoop ι γ) (h : ι) (closeCb : Option γ) : Option (ClosingLoop ι γ) :=
  if (s.handle h).closing = true ∨ (s.handle h).closed = true then none
  else
    let s := s.setHandle h { s.handle h with closing := true, closeCb }
    -- a signal that was caught has to be dispatched first
    if (s.handle h).type = .signal ∧
        (s.handle h).caughtSignals ≠ (s.handle h).dispatchedSignals then some s
    else s.uvMakeClosePending h

/-- The end of a round of `uv__signal_event`, after the signal callback. -/
def uvSignalDispatched (s : ClosingLoop ι γ) (h : ι) : Option (ClosingLoop ι γ) :=
  let s := s.setHandle h
    { s.handle h with dispatchedSignals := (s.handle h).dispatchedSignals + 1 }
  if (s.handle h).closing = true ∧
      (s.handle h).caughtSignals = (s.handle h).dispatchedSignals then s.uvMakeClosePending h
  else some s

/-- The end of `uv__finish_close`. -/
def callCloseCb (s : ClosingLoop ι γ) (p : ι) (q : Option ι) : ClosingLoop ι γ :=
  let s := { s with handleQueue := s.handleQueue.erase p }
  match (s.handle p).closeCb with
  | some cb =>
    { s with
      phase := .closeCb q
      calls := update s.calls p (s.calls p ++ [(cb, s.passes)]) }
  | none => { s with phase := .walk q }

/-- `uv__finish_close`, until a callback is called. -/
def uvFinishClose (s : ClosingLoop ι γ) (p : ι) (q : Option ι) : Option (ClosingLoop ι γ) :=
  if (s.handle p).closing = true ∧ (s.handle p).closed = false then
    let s := s.setHandle p { s.handle p with closed := true }
    if (s.handle p).type.destroyed then some { s with phase := .destroy p q }
    else some (s.callCloseCb p q)
  else none

/-- The loop goes on, from one callback of `uv__run_closing_handles` to the next. -/
def uvRunClosingHandles (s : ClosingLoop ι γ) : Option (ClosingLoop ι γ) :=
  match s.phase with
  | .elsewhere =>
    some { s with
      phase := .walk s.closingHandles, closingHandles := none, passes := s.passes + 1 }
  | .walk none => some { s with phase := .elsewhere }
  | .walk (some p) => s.uvFinishClose p (s.handle p).nextClosing
  | .destroy p q => some (s.callCloseCb p q)
  | .closeCb q => some { s with phase := .walk q }

/-- The user initialises, closes and frees handles and writes to memory that holds none, signals
are caught and dispatched, and the loop goes on. -/
inductive Event (ι γ : Type*) where
  | init (h : ι) (type : HandleType) : Event ι γ
  | close (h : ι) (closeCb : Option γ) : Event ι γ
  | free (h : ι) : Event ι γ
  | write (h : ι) (v : ClosableHandle ι γ) : Event ι γ
  | caught (h : ι) : Event ι γ
  | dispatched (h : ι) : Event ι γ
  | loop : Event ι γ

/-- The events that can happen. A handle may be freed once it has left `handle_queue`. -/
def Enabled (s : ClosingLoop ι γ) : Event ι γ → Prop
  | .init h _ => s.live h = false ∧ s.phase.runsUser = true
  | .close h _ => s.live h = true ∧ (s.handle h).closing = false ∧ s.phase.runsUser = true
  | .free h => s.live h = true ∧ h ∉ s.handleQueue ∧ s.phase.runsUser = true
  | .write h _ => s.live h = false
  | .caught h => s.live h = true ∧ (s.handle h).type = .signal ∧ (s.handle h).closing = false
  | .dispatched h => s.live h = true ∧
      (s.handle h).dispatchedSignals < (s.handle h).caughtSignals ∧ s.phase = .elsewhere
  | .loop => True

instance (s : ClosingLoop ι γ) : ∀ e : Event ι γ, Decidable (Enabled s e)
  | .init _ _ => inferInstanceAs (Decidable (_ ∧ _))
  | .close _ _ => inferInstanceAs (Decidable (_ ∧ _ ∧ _))
  | .free h => inferInstanceAs (Decidable (_ ∧ h ∉ s.handleQueue ∧ _))
  | .write _ _ => inferInstanceAs (Decidable (_ = _))
  | .caught _ => inferInstanceAs (Decidable (_ ∧ _ ∧ _))
  | .dispatched _ => inferInstanceAs (Decidable (_ ∧ _ ∧ _))
  | .loop => .isTrue trivial

def next (s : ClosingLoop ι γ) : Event ι γ → Option (ClosingLoop ι γ)
  | .init h type => some (s.uvHandleInit h type)
  | .close h closeCb => s.uvClose h closeCb
  | .free h => some { s with live := update s.live h false }
  | .write h v => some (s.setHandle h v)
  | .caught h => some (s.setHandle h
      { s.handle h with caughtSignals := (s.handle h).caughtSignals + 1 })
  | .dispatched h => s.uvSignalDispatched h
  | .loop => s.uvRunClosingHandles

def step (s : ClosingLoop ι γ) (e : Event ι γ) : Option (ClosingLoop ι γ) :=
  if Enabled s e then s.next e else none

def Step (s : ClosingLoop ι γ) (e : Event ι γ) (t : ClosingLoop ι γ) : Prop := s.step e = some t

structure Init (s : ClosingLoop ι γ) : Prop where
  closingHandles : s.closingHandles = none
  handleQueue : s.handleQueue = []
  phase : s.phase = .elsewhere
  live : ∀ h, s.live h = false

/-! ### Where a handle is -/

def links (s : ClosingLoop ι γ) : ι → Option ι := fun h => (s.handle h).nextClosing

theorem links_setHandle (s : ClosingLoop ι γ) (h : ι) (v : ClosableHandle ι γ) :
    (s.setHandle h v).links = update s.links h v.nextClosing :=
  comp_update ClosableHandle.nextClosing ..

/-- A handle that `uv__finish_close` has not reached. -/
structure Unfinished (s : ClosingLoop ι γ) (h : ι) : Prop where
  live : s.live h = true
  closed : (s.handle h).closed = false
  calls : s.calls h = []
  queued : h ∈ s.handleQueue

/-- The handle has left `handle_queue`, and its close callback, if it has one, was called once, in
a pass that began after it was made pending. -/
structure Finished (s : ClosingLoop ι γ) (h : ι) : Prop where
  closed : (s.handle h).closed = true
  queued : h ∉ s.handleQueue
  called : ∃ n m, s.pendingAt h = some n ∧ n < m ∧ m ≤ s.passes ∧
    s.calls h = (s.handle h).closeCb.toList.map (·, m)

/-- The places of a handle; `ls` is the list of the loop and `ws` what a pass has to walk yet. -/
inductive Placed (s : ClosingLoop ι γ) (ls ws : List ι) (h : ι) : Prop
  | unused : s.live h = false → h ∉ s.handleQueue → h ∉ ls → h ∉ ws → Placed s ls ws h
  | opened : Unfinished s h → (s.handle h).closing = false → s.pendingAt h = none →
      (s.handle h).dispatchedSignals ≤ (s.handle h).caughtSignals →
      ((s.handle h).type ≠ .signal →
        (s.handle h).caughtSignals = (s.handle h).dispatchedSignals) →
      h ∉ ls → h ∉ ws → Placed s ls ws h
  | deferred : Unfinished s h → (s.handle h).closing = true → s.pendingAt h = none →
      (s.handle h).dispatchedSignals < (s.handle h).caughtSignals → (s.handle h).type = .signal →
      h ∉ ls → h ∉ ws → Placed s ls ws h
  | pending : Unfinished s h → (s.handle h).closing = true → s.pendingAt h = some s.passes →
      (s.handle h).caughtSignals = (s.handle h).dispatchedSignals →
      h ∈ ls → h ∉ ws → Placed s ls ws h
  | detached {n : ℕ} : Unfinished s h → (s.handle h).closing = true → s.pendingAt h = some n →
      n < s.passes → (s.handle h).caughtSignals = (s.handle h).dispatchedSignals →
      h ∉ ls → h ∈ ws → Placed s ls ws h
  | destroying {n : ℕ} {q : Option ι} : s.live h = true → (s.handle h).closing = true →
      (s.handle h).closed = true → s.calls h = [] → h ∈ s.handleQueue → s.pendingAt h = some n →
      n < s.passes → (s.handle h).caughtSignals = (s.handle h).dispatchedSignals →
      s.phase = .destroy h q → h ∉ ls → h ∉ ws → Placed s ls ws h
  | finished : s.live h = true → (s.handle h).closing = true → Finished s h →
      (s.handle h).caughtSignals = (s.handle h).dispatchedSignals →
      h ∉ ls → h ∉ ws → Placed s ls ws h

/-- The list of the loop and the rest of the pass, and the place of every handle. -/
structure Chained (s : ClosingLoop ι γ) (ls ws : List ι) : Prop where
  leads : Leads s.links s.closingHandles ls
  walk : Leads s.links s.phase.rest ws
  nodup : ls.Nodup ∧ ws.Nodup
  queue : s.handleQueue.Nodup
  destroys : ∀ p q, s.phase = .destroy p q →
    s.live p = true ∧ (s.handle p).closed = true ∧ p ∈ s.handleQueue
  placed : ∀ h, Placed s ls ws h

/-- What `Placed` says of `h` is the same in both states. -/
structure SameAt (s t : ClosingLoop ι γ) (h : ι) : Prop where
  handle : t.handle h = s.handle h
  live : t.live h = s.live h
  pendingAt : t.pendingAt h = s.pendingAt h
  calls : t.calls h = s.calls h
  queued : h ∈ t.handleQueue ↔ h ∈ s.handleQueue
  passes : t.passes = s.passes
  phase : ∀ q, s.phase = .destroy h q → t.phase = .destroy h q

section

omit [DecidableEq ι]

theorem Unfinished.congr (hs : Unfinished s h) (hsame : SameAt s t h) : Unfinished t h where
  live := hsame.live.trans hs.live
  closed := by rw [hsame.handle, hs.closed]
  calls := hsame.calls.trans hs.calls
  queued := hsame.queued.mpr hs.queued

theorem Finished.congr (hs : Finished s h) (hsame : SameAt s t h) : Finished t h where
  closed := by rw [hsame.handle, hs.closed]
  queued := hsame.queued.not.mpr hs.queued
  called := by
    rw [hsame.pendingAt, hsame.passes, hsame.calls, hsame.handle]
    exact hs.called

theorem Placed.congr (hs : Placed s ls ws h) (hsame : SameAt s t h) (hls : h ∈ ls' ↔ h ∈ ls)
    (hws : h ∈ ws' ↔ h ∈ ws) : Placed t ls' ws' h := by
  have hhandle := hsame.handle
  cases hs with
  | unused hlive hqueue hl hw =>
    exact .unused (hsame.live.trans hlive) (hsame.queued.not.mpr hqueue) (hls.not.mpr hl)
      (hws.not.mpr hw)
  | opened hun hclosing hat hle htype hl hw =>
    rw [← hhandle] at hclosing hle htype
    exact .opened (hun.congr hsame) hclosing (hsame.pendingAt.trans hat) hle htype (hls.not.mpr hl)
      (hws.not.mpr hw)
  | deferred hun hclosing hat hlt htype hl hw =>
    rw [← hhandle] at hclosing hlt htype
    exact .deferred (hun.congr hsame) hclosing (hsame.pendingAt.trans hat) hlt htype
      (hls.not.mpr hl) (hws.not.mpr hw)
  | pending hun hclosing hat heq hl hw =>
    rw [← hhandle] at hclosing heq
    rw [← hsame.passes] at hat
    exact .pending (hun.congr hsame) hclosing (hsame.pendingAt.trans hat) heq (hls.mpr hl)
      (hws.not.mpr hw)
  | detached hun hclosing hat hlt heq hl hw =>
    rw [← hhandle] at hclosing heq
    rw [← hsame.passes] at hlt
    exact .detached (hun.congr hsame) hclosing (hsame.pendingAt.trans hat) hlt heq (hls.not.mpr hl)
      (hws.mpr hw)
  | destroying hlive hclosing hclosed hcalls hqueue hat hlt heq hphase hl hw =>
    rw [← hhandle] at hclosing hclosed heq
    rw [← hsame.passes] at hlt
    exact .destroying (hsame.live.trans hlive) hclosing hclosed (hsame.calls.trans hcalls)
      (hsame.queued.mpr hqueue) (hsame.pendingAt.trans hat) hlt heq (hsame.phase _ hphase)
      (hls.not.mpr hl) (hws.not.mpr hw)
  | finished hlive hclosing hfin heq hl hw =>
    rw [← hhandle] at hclosing heq
    exact .finished (hsame.live.trans hlive) hclosing (hfin.congr hsame) heq (hls.not.mpr hl)
      (hws.not.mpr hw)

theorem Placed.of_dead (hp : Placed s ls ws h) (hlive : s.live h = false) :
    h ∉ s.handleQueue ∧ h ∉ ls ∧ h ∉ ws := by
  cases hp with
  | unused _ hq hls hws => exact ⟨hq, hls, hws⟩
  | opened hun | deferred hun | pending hun | detached hun => cases hlive.symm.trans hun.live
  | destroying hset | finished hset => cases hlive.symm.trans hset

theorem Placed.of_open (hp : Placed s ls ws h) (hlive : s.live h = true)
    (hopen : (s.handle h).closing = false) :
    Unfinished s h ∧ s.pendingAt h = none ∧
      (s.handle h).dispatchedSignals ≤ (s.handle h).caughtSignals ∧
      ((s.handle h).type ≠ .signal →
        (s.handle h).caughtSignals = (s.handle h).dispatchedSignals) ∧ h ∉ ls ∧ h ∉ ws := by
  cases hp with
  | opened hun _ hat hle htype hls hws => exact ⟨hun, hat, hle, htype, hls, hws⟩
  | unused hnone => cases hlive.symm.trans hnone
  | deferred _ hclosing | pending _ hclosing | detached _ hclosing | destroying _ hclosing
  | finished _ hclosing => cases hopen.symm.trans hclosing

end

variable {v : ClosableHandle ι γ}

/-- A handle can be changed in place if it is in neither list or keeps its link. -/
theorem Chained.setHandle (hs : Chained s ls ws)
    (hlink : v.nextClosing = (s.handle h).nextClosing ∨ h ∉ ls ∧ h ∉ ws)
    (hclosed : ∀ q, s.phase = .destroy h q → v.closed = true)
    (hplaced : Placed (s.setHandle h v) ls ws h) : Chained (s.setHandle h v) ls ws := by
  obtain ⟨hleads, hwalk, hnodup, hqueue, hdestroys, hall⟩ := hs
  have hlinks := s.links_setHandle h v
  refine ⟨?_, ?_, hnodup, hqueue, ?_, ?_⟩
  · rw [hlinks]
    rcases hlink with hlink | hlink
    · rw [hlink]
      exact (update_eq_self h s.links).symm ▸ hleads
    · exact hleads.update hlink.1 _
  · rw [hlinks]
    rcases hlink with hlink | hlink
    · rw [hlink]
      exact (update_eq_self h s.links).symm ▸ hwalk
    · exact hwalk.update hlink.2 _
  · intro p q hphase
    obtain ⟨hlive, hdone, hmem⟩ := hdestroys p q hphase
    refine ⟨hlive, ?_, hmem⟩
    dsimp only [ClosingLoop.setHandle]
    by_cases hp : p = h
    · subst hp
      rw [update_self]
      exact hclosed q hphase
    · rw [update_of_ne hp]
      exact hdone
  · intro k
    by_cases hk : k = h
    · subst hk
      exact hplaced
    · have hhandle : (s.setHandle h v).handle k = s.handle k := update_of_ne hk ..
      exact (hall k).congr ⟨hhandle, rfl, rfl, rfl, .rfl, rfl, fun _ => id⟩ .rfl .rfl

/-! ### One event -/

theorem Chained.makeClosePending (hs : Chained s ls ws) (hun : Unfinished s h)
    (hclosing : v.closing = true) (hclosed : v.closed = false)
    (hcounts : v.caughtSignals = v.dispatchedSignals) (hls : h ∉ ls) (hws : h ∉ ws) :
    ∃ t, (s.setHandle h v).uvMakeClosePending h = some t ∧ Chained t (h :: ls) ws := by
  obtain ⟨hleads, hwalk, hnodup, hqueue, hdestroys, hall⟩ := hs
  have hself : (s.setHandle h v).handle h = v := update_self ..
  rw [uvMakeClosePending, hself, if_pos ⟨hclosing, hclosed⟩]
  let t : ClosingLoop ι γ :=
    { (s.setHandle h v).setHandle h { v with nextClosing := s.closingHandles } with
      closingHandles := some h, pendingAt := update s.pendingAt h (some s.passes) }
  have hlinks : t.links = update s.links h s.closingHandles := by
    have hinner := (s.setHandle h v).links_setHandle h { v with nextClosing := s.closingHandles }
    rw [s.links_setHandle, update_idem] at hinner
    exact hinner
  have hnew : t.handle h = { v with nextClosing := s.closingHandles } := update_self ..
  have hother {k : ι} (hk : k ≠ h) : t.handle k = s.handle k :=
    (update_of_ne hk ..).trans (update_of_ne hk ..)
  have hat : t.pendingAt h = some t.passes := update_self ..
  refine ⟨t, rfl, ?_, ?_, ⟨nodup_cons.mpr ⟨hls, hnodup.1⟩, hnodup.2⟩, hqueue, ?_, ?_⟩
  · rw [hlinks]
    exact hleads.push hls
  · rw [hlinks]
    exact hwalk.update hws _
  · intro p q hphase
    obtain ⟨hlive, hdone, hmem⟩ := hdestroys p q hphase
    have hp : p ≠ h := by
      rintro rfl
      cases hun.closed.symm.trans hdone
    exact ⟨hlive, by rw [hother hp, hdone], hmem⟩
  · intro k
    by_cases hk : k = h
    · subst hk
      refine .pending { hun with closed := ?_ } ?_ hat ?_ mem_cons_self hws
      · rw [hnew, hclosed]
      · rw [hnew, hclosing]
      · rw [hnew, hcounts]
    · have hpending : t.pendingAt k = s.pendingAt k := update_of_ne hk ..
      refine (hall k).congr ⟨hother hk, rfl, hpending, rfl, .rfl, rfl, fun _ => id⟩ ?_ .rfl
      exact mem_cons.trans (or_iff_right hk)

theorem Chained.close (hs : Chained s ls ws) (hlive : s.live h = true)
    (hopen : (s.handle h).closing = false) (closeCb : Option γ) :
    ∃ t ls', s.uvClose h closeCb = some t ∧ Chained t ls' ws := by
  obtain ⟨hun, hat, hle, htype, hls, hws⟩ := (hs.placed h).of_open hlive hopen
  rw [uvClose, if_neg (by simp [hopen, hun.closed])]
  set v : ClosableHandle ι γ := { s.handle h with closing := true, closeCb }
  have hself : (s.setHandle h v).handle h = v := update_self ..
  dsimp only
  rw [hself]
  by_cases htrapped : v.type = .signal ∧ v.caughtSignals ≠ v.dispatchedSignals
  · refine ⟨_, ls, if_pos htrapped, hs.setHandle (.inl rfl) ?_ ?_⟩
    · intro q hphase
      exact (hs.destroys h q hphase).2.1
    · refine .deferred ⟨hlive, ?_, hun.calls, hun.queued⟩ ?_ hat ?_ ?_ hls hws
      · rw [hself]
        exact hun.closed
      · rw [hself]
      · rw [hself]
        exact Nat.lt_of_le_of_ne hle htrapped.2.symm
      · rw [hself]
        exact htrapped.1
  · have hcounts : v.caughtSignals = v.dispatchedSignals := by
      by_contra hne
      exact htrapped ⟨by_contra fun hother => hne (htype hother), hne⟩
    obtain ⟨t, ht, hchained⟩ := hs.makeClosePending hun (v := v) rfl hun.closed hcounts hls hws
    exact ⟨t, h :: ls, (if_neg htrapped).trans ht, hchained⟩

/-- A caught signal is dispatched; the last one makes a closed handle pending. -/
theorem Chained.dispatched (hs : Chained s ls ws) (hlive : s.live h = true)
    (htrapped : (s.handle h).dispatchedSignals < (s.handle h).caughtSignals) :
    ∃ t ls', s.uvSignalDispatched h = some t ∧ Chained t ls' ws := by
  set v : ClosableHandle ι γ :=
    { s.handle h with dispatchedSignals := (s.handle h).dispatchedSignals + 1 } with hv
  have hself : (s.setHandle h v).handle h = v := update_self ..
  rw [uvSignalDispatched]
  rw [hself]
  have hdestroys : ∀ q, s.phase = .destroy h q → v.closed = true :=
    fun q hphase => (hs.destroys h q hphase).2.1
  have hne := (Nat.ne_of_lt htrapped).symm
  cases hs.placed h with
  | opened hun hclosing hat hle htype hls hws =>
    refine ⟨_, ls, if_neg ?_, hs.setHandle (.inl rfl) hdestroys ?_⟩
    · rintro ⟨hset, -⟩
      cases hclosing.symm.trans hset
    · refine .opened ⟨hlive, ?_, hun.calls, hun.queued⟩ ?_ hat ?_ ?_ hls hws
      · rw [hself]
        exact hun.closed
      · rw [hself]
        exact hclosing
      · rw [hself]
        exact htrapped
      · rw [hself]
        intro hother
        exact absurd (htype hother) hne
  | deferred hun hclosing hat _ htype hls hws =>
    by_cases hlast : v.caughtSignals = v.dispatchedSignals
    · obtain ⟨t, ht, hchained⟩ :=
        hs.makeClosePending hun (v := v) hclosing hun.closed hlast hls hws
      exact ⟨t, h :: ls, (if_pos ⟨hclosing, hlast⟩).trans ht, hchained⟩
    · refine ⟨_, ls, if_neg (fun hboth => hlast hboth.2), hs.setHandle (.inl rfl) hdestroys ?_⟩
      refine .deferred ⟨hlive, ?_, hun.calls, hun.queued⟩ ?_ hat ?_ ?_ hls hws
      · rw [hself]
        exact hun.closed
      · rw [hself]
        exact hclosing
      · rw [hself]
        exact Nat.lt_of_le_of_ne htrapped (Ne.symm hlast)
      · rw [hself]
        exact htype
  | unused hnone => cases hlive.symm.trans hnone
  | pending _ _ _ hcounts | detached _ _ _ _ hcounts | destroying _ _ _ _ _ _ _ hcounts
  | finished _ _ _ hcounts => exact absurd hcounts hne

/-- `uv__finish_close` of the first handle of the pass, until the callbacks of its requests. -/
theorem Chained.finishClose {p : ι} (hs : Chained s ls ws) (hphase : s.phase = .walk (some p)) :
    (s.handle p).closing = true ∧ (s.handle p).closed = false ∧
      ∃ rest, ws = p :: rest ∧ Chained { s.setHandle p { s.handle p with closed := true } with
        phase := .destroy p (s.handle p).nextClosing } ls rest := by
  obtain ⟨hleads, hwalk, hnodup, hqueue, hdestroys, hall⟩ := hs
  rw [hphase] at hwalk
  obtain ⟨rest, rfl, hrest⟩ := leads_some.mp hwalk
  obtain ⟨hp, hnd⟩ := nodup_cons.mp hnodup.2
  cases hall p with
  | detached hun hclosing hat hlt hcounts hls _ =>
    refine ⟨hclosing, hun.closed, rest, rfl, ?_⟩
    let t : ClosingLoop ι γ := { s.setHandle p { s.handle p with closed := true } with
      phase := .destroy p (s.handle p).nextClosing }
    have hself : t.handle p = { s.handle p with closed := true } := update_self ..
    have hother {k : ι} (hk : k ≠ p) : t.handle k = s.handle k := update_of_ne hk ..
    have hlinks : t.links = s.links :=
      (s.links_setHandle p { s.handle p with closed := true }).trans
        (update_eq_self p s.links)
    refine ⟨?_, ?_, ⟨hnodup.1, hnd⟩, hqueue, ?_, ?_⟩
    · exact hlinks ▸ hleads
    · exact hlinks ▸ hrest
    · intro k q hk
      obtain ⟨rfl, -⟩ := ClosingPhase.destroy.inj hk
      exact ⟨hun.live, congrArg ClosableHandle.closed hself, hun.queued⟩
    · intro k
      by_cases hk : k = p
      · subst hk
        refine .destroying (s := t) hun.live ?_ ?_ hun.calls hun.queued hat hlt ?_ rfl hls hp
        · rw [hself, hclosing]
        · rw [hself]
        · rw [hself, hcounts]
      · refine (hall k).congr ⟨hother hk, rfl, rfl, rfl, .rfl, rfl, ?_⟩ .rfl ?_
        · intro q hdestroy
          cases hphase.symm.trans hdestroy
        · exact (mem_cons.trans (or_iff_right hk)).symm
  | unused _ _ _ hws | opened _ _ _ _ _ _ hws | deferred _ _ _ _ _ _ hws | pending _ _ _ _ _ hws
  | destroying _ _ _ _ _ _ _ _ _ _ hws | finished _ _ _ _ _ hws =>
    exact absurd mem_cons_self hws

theorem callCloseCb_rest (s : ClosingLoop ι γ) (p : ι) (q : Option ι) :
    (s.callCloseCb p q).passes = s.passes ∧ (s.callCloseCb p q).live = s.live ∧
      (s.callCloseCb p q).pendingAt = s.pendingAt ∧
      ((s.callCloseCb p q).phase = .closeCb q ∨ (s.callCloseCb p q).phase = .walk q) := by
  dsimp only [callCloseCb]
  cases (s.handle p).closeCb with
  | none => exact ⟨rfl, rfl, rfl, .inr rfl⟩
  | some cb => exact ⟨rfl, rfl, rfl, .inl rfl⟩

theorem Chained.callCloseCb {p : ι} {q : Option ι} (hs : Chained s ls ws)
    (hphase : s.phase = .destroy p q) : Chained (s.callCloseCb p q) ls ws := by
  obtain ⟨hleads, hwalk, hnodup, hqueue, hdestroys, hall⟩ := hs
  rw [hphase] at hwalk
  obtain ⟨hlive, hclosed, hmem⟩ := hdestroys p q hphase
  have herase {k : ι} (hk : k ≠ p) : k ∈ s.handleQueue.erase p ↔ k ∈ s.handleQueue :=
    mem_erase_of_ne hk
  have hgone : p ∉ s.handleQueue.erase p := fun h => (hqueue.mem_erase_iff.mp h).1 rfl
  have hleaves {k : ι} {q' : Option ι} (hk : k ≠ p) : s.phase ≠ .destroy k q' := by
    rw [hphase]
    rintro ⟨⟩
    exact hk rfl
  cases hall p with
  | destroying _ hclosing _ hcalls _ hat hlt hcounts _ hls hws =>
    rw [ClosingLoop.callCloseCb]
    cases hcb : (s.handle p).closeCb with
    | none =>
      refine ⟨hleads, hwalk, hnodup, hqueue.erase p, by simp, fun k => ?_⟩
      by_cases hk : k = p
      · subst hk
        refine .finished hlive hclosing ⟨hclosed, hgone, ?_⟩ hcounts hls hws
        exact ⟨_, _, hat, hlt, Nat.le_refl _, by simp [hcb, hcalls]⟩
      · exact (hall k).congr ⟨rfl, rfl, rfl, rfl, herase hk, rfl,
          fun _ h => absurd h (hleaves hk)⟩ .rfl .rfl
    | some cb =>
      refine ⟨hleads, hwalk, hnodup, hqueue.erase p, by simp, fun k => ?_⟩
      by_cases hk : k = p
      · subst hk
        refine .finished hlive hclosing ⟨hclosed, hgone, ?_⟩ hcounts hls hws
        exact ⟨_, _, hat, hlt, Nat.le_refl _, by simp [hcb, hcalls]⟩
      · refine (hall k).congr ⟨rfl, rfl, rfl, ?_, herase hk, rfl,
          fun _ h => absurd h (hleaves hk)⟩ .rfl .rfl
        exact update_of_ne hk ..
  | unused hnone => cases hlive.symm.trans hnone
  | opened hun | deferred hun | pending hun | detached hun => cases hun.closed.symm.trans hclosed
  | finished _ _ hfin => exact absurd hmem hfin.queued

/-- A bound on what the loop has to do yet in a pass, with `rest` handles left. -/
def rank (rest : ℕ) : ClosingPhase ι → ℕ
  | .elsewhere => 0
  | .walk _ => 3 * rest + 1
  | .closeCb _ => 3 * rest + 2
  | .destroy _ _ => 3 * rest + 3

def Proceeds (s t : ClosingLoop ι γ) (ws ws' : List ι) : Prop :=
  s.phase = .elsewhere ∧ t.passes = s.passes + 1 ∨
    s.phase ≠ .elsewhere ∧ t.passes = s.passes ∧ rank ws'.length t.phase < rank ws.length s.phase

omit [DecidableEq ι] in
theorem Placed.detach (hp : Placed s ls [] h) (hphase : s.phase = .elsewhere) :
    Placed { s with
      phase := .walk s.closingHandles
      closingHandles := none
      passes := s.passes + 1 } [] ls h := by
  cases hp with
  | unused hnone hq hl _ => exact .unused hnone hq not_mem_nil hl
  | opened hun hopen hat hle htype hl _ =>
    exact .opened { hun with } hopen hat hle htype
      not_mem_nil hl
  | deferred hun hclosing hat hlt htype hl _ =>
    exact .deferred { hun with } hclosing hat hlt htype
      not_mem_nil hl
  | pending hun hclosing hat hcounts hl _ =>
    exact .detached { hun with } hclosing hat
      (lt_succ_self _) hcounts not_mem_nil hl
  | detached _ _ _ _ _ _ hw => exact absurd hw not_mem_nil
  | destroying _ _ _ _ _ _ _ _ hdestroy => cases hphase.symm.trans hdestroy
  | finished hlive hclosing hfin hcounts hl _ =>
    obtain ⟨n, m, hat, hlt, hle, hcalls⟩ := hfin.called
    exact .finished hlive hclosing ⟨hfin.closed, hfin.queued, n, m, hat, hlt,
      le_succ_of_le hle, hcalls⟩ hcounts not_mem_nil hl

section

variable (hs : Chained s ls ws)
include hs

omit [DecidableEq ι] in
theorem Chained.setPhase {phase : ClosingPhase ι}
    (hrest : phase.rest = s.phase.rest) (hleaves : ∀ p q, s.phase ≠ .destroy p q)
    (henters : ∀ p q, phase ≠ .destroy p q) : Chained { s with phase } ls ws := by
  refine ⟨hs.leads, ?_, hs.nodup, hs.queue, fun p q hphase => absurd hphase (henters p q), ?_⟩
  · exact hrest ▸ hs.walk
  · intro k
    exact (hs.placed k).congr ⟨rfl, rfl, rfl, rfl, .rfl, rfl, fun q h => absurd h (hleaves k q)⟩
      .rfl .rfl

theorem Chained.runClosingHandles :
    ∃ t ls' ws', s.uvRunClosingHandles = some t ∧ Chained t ls' ws' ∧ Proceeds s t ws ws' := by
  rw [uvRunClosingHandles]
  cases hphase : s.phase with
  | elsewhere =>
    have hwalk := hs.walk
    rw [hphase] at hwalk
    obtain rfl := leads_none.mp hwalk
    refine ⟨_, [], ls, rfl, ?_, .inl ⟨hphase, rfl⟩⟩
    exact ⟨.nil, hs.leads, ⟨nodup_nil, hs.nodup.1⟩, hs.queue, by simp,
      fun k => (hs.placed k).detach hphase⟩
  | walk p =>
    cases p with
    | none =>
      refine ⟨_, ls, ws, rfl, hs.setPhase ?_ (by simp [hphase]) (by simp), .inr ⟨?_, rfl, ?_⟩⟩
      · rw [hphase]
        rfl
      · simp [hphase]
      · rw [hphase]
        exact succ_pos _
    | some p =>
      obtain ⟨hclosing, hclosed, rest, rfl, hchained⟩ := hs.finishClose hphase
      have hmid : s.phase ≠ .elsewhere := by simp [hphase]
      dsimp only
      rw [uvFinishClose, if_pos ⟨hclosing, hclosed⟩]
      dsimp only
      split
      · refine ⟨_, ls, rest, rfl, hchained, .inr ⟨hmid, rfl, ?_⟩⟩
        rw [hphase]
        simp only [rank, length_cons]
        omega
      · have hcalled := hchained.callCloseCb rfl
        obtain ⟨hpasses, -, -, hnext⟩ := (s.setHandle p { s.handle p with
          closed := true }).callCloseCb_rest p (s.handle p).nextClosing
        refine ⟨_, ls, rest, rfl, hcalled, .inr ⟨hmid, hpasses, ?_⟩⟩
        rw [hphase]
        rcases hnext with hnext | hnext <;> simp only [hnext, rank, length_cons] <;> omega
  | destroy p q =>
    obtain ⟨hpasses, -, -, hnext⟩ := s.callCloseCb_rest p q
    refine ⟨_, ls, ws, rfl, hs.callCloseCb hphase, .inr ⟨by simp [hphase], hpasses, ?_⟩⟩
    rw [hphase]
    rcases hnext with hnext | hnext <;> simp only [hnext, rank] <;> omega
  | closeCb q =>
    refine ⟨_, ls, ws, rfl, hs.setPhase ?_ (by simp [hphase]) (by simp), .inr ⟨?_, rfl, ?_⟩⟩
    · rw [hphase]
      rfl
    · simp [hphase]
    · rw [hphase]
      exact lt_succ_self _

theorem Chained.handleInit (hlive : s.live h = false) (type : HandleType) :
    Chained (s.uvHandleInit h type) ls ws := by
  obtain ⟨hleads, hwalk, hnodup, hqueue, hdestroys, hall⟩ := hs
  obtain ⟨hq, hls, hws⟩ := (hall h).of_dead hlive
  set v : ClosableHandle ι γ := { s.handle h with
    type, closing := false, closed := false, caughtSignals := 0, dispatchedSignals := 0 }
  let t := s.uvHandleInit h type
  have hself : t.handle h = v := update_self ..
  have hother {k : ι} (hk : k ≠ h) : t.handle k = s.handle k := update_of_ne hk ..
  have hlinks : t.links = s.links :=
    (s.links_setHandle h v).trans (update_eq_self h s.links)
  have hmem {k : ι} (hk : k ≠ h) : k ∈ t.handleQueue ↔ k ∈ s.handleQueue := by
    simp [t, uvHandleInit, hk]
  refine ⟨hlinks ▸ hleads, hlinks ▸ hwalk, hnodup, ?_, ?_, ?_⟩
  · refine nodup_append.mpr ⟨hqueue, nodup_singleton h, ?_⟩
    rintro k hk _ hsingle rfl
    exact hq (mem_singleton.mp hsingle ▸ hk)
  · intro p q hphase
    obtain ⟨hplive, hdone, hpmem⟩ := hdestroys p q hphase
    have hp : p ≠ h := ne_of_mem_of_not_mem hpmem hq
    exact ⟨(update_of_ne hp ..).trans hplive, by rw [hother hp, hdone],
      (hmem hp).mpr hpmem⟩
  · intro k
    by_cases hk : k = h
    · subst hk
      refine .opened (s := t) ⟨update_self .., ?_, update_self .., ?_⟩ ?_
        (update_self ..) ?_ ?_ hls hws
      · rw [hself]
      · exact mem_append_right _ mem_cons_self
      · rw [hself]
      · exact Nat.le_of_eq (by rw [hself])
      · rw [hself]
        exact fun _ => rfl
    · exact (hall k).congr ⟨hother hk, update_of_ne hk .., update_of_ne hk ..,
        update_of_ne hk .., hmem hk, rfl, fun _ => id⟩ .rfl .rfl

theorem Chained.free (hlive : s.live h = true) (hgone : h ∉ s.handleQueue) :
    Chained { s with live := update s.live h false } ls ws := by
  obtain ⟨hleads, hwalk, hnodup, hqueue, hdestroys, hall⟩ := hs
  refine ⟨hleads, hwalk, hnodup, hqueue, ?_, ?_⟩
  · intro p q hphase
    obtain ⟨hplive, hdone, hpmem⟩ := hdestroys p q hphase
    exact ⟨(update_of_ne (ne_of_mem_of_not_mem hpmem hgone) ..).trans hplive, hdone, hpmem⟩
  · intro k
    by_cases hk : k = h
    · subst hk
      cases hall k with
      | finished _ _ _ _ hls hws => exact .unused (update_self ..) hgone hls hws
      | unused hnone => cases hlive.symm.trans hnone
      | opened hun | deferred hun | pending hun | detached hun => exact absurd hun.queued hgone
      | destroying _ _ _ _ hmem => exact absurd hmem hgone
    · exact (hall k).congr ⟨rfl, update_of_ne hk .., rfl, rfl, .rfl, rfl, fun _ => id⟩
        .rfl .rfl

theorem Chained.write (hlive : s.live h = false)
    (v : ClosableHandle ι γ) : Chained (s.setHandle h v) ls ws := by
  obtain ⟨hq, hls, hws⟩ := (hs.placed h).of_dead hlive
  refine hs.setHandle (.inr ⟨hls, hws⟩) ?_ (.unused hlive hq hls hws)
  intro q hphase
  exact absurd (hs.destroys h q hphase).2.2 hq

theorem Chained.caught (hlive : s.live h = true)
    (htype : (s.handle h).type = .signal) (hopen : (s.handle h).closing = false) :
    Chained (s.setHandle h
      { s.handle h with caughtSignals := (s.handle h).caughtSignals + 1 }) ls ws := by
  set v : ClosableHandle ι γ :=
    { s.handle h with caughtSignals := (s.handle h).caughtSignals + 1 }
  have hself : (s.setHandle h v).handle h = v := update_self ..
  obtain ⟨hun, hat, hle, -, hls, hws⟩ := (hs.placed h).of_open hlive hopen
  refine hs.setHandle (.inl rfl) (fun q hphase => (hs.destroys h q hphase).2.1) ?_
  refine .opened ⟨hlive, ?_, hun.calls, hun.queued⟩ ?_ hat ?_ ?_ hls hws
  · rw [hself]
    exact hun.closed
  · rw [hself]
    exact hopen
  · rw [hself]
    exact le_succ_of_le hle
  · rw [hself]
    exact fun hother => absurd htype hother

end

theorem uvMakeClosePending_rest (hpending : s.uvMakeClosePending h = some t) :
    t.phase = s.phase ∧ t.passes = s.passes ∧ t.live = s.live ∧
      ∀ k, k ≠ h → t.pendingAt k = s.pendingAt k := by
  obtain ⟨-, ht⟩ := ite_none_right_eq_some.mp hpending
  cases ht
  exact ⟨rfl, rfl, rfl, fun k hk => update_of_ne hk ..⟩

variable {e : Event ι γ}

/-- An event that can happen keeps every handle in its place or moves it on, and no assertion
fails. -/
theorem Chained.step (hs : Chained s ls ws) (henabled : Enabled s e) :
    ∃ t ls' ws', s.step e = some t ∧ Chained t ls' ws' ∧
      (e = .loop → Proceeds s t ws ws') ∧ (e ≠ .loop → ws' = ws) := by
  rw [ClosingLoop.step, if_pos henabled]
  cases e with
  | init h type => exact ⟨_, ls, ws, rfl, hs.handleInit henabled.1 type, nofun, fun _ => rfl⟩
  | close h closeCb =>
    obtain ⟨t, ls', ht, hchained⟩ := hs.close henabled.1 henabled.2.1 closeCb
    exact ⟨t, ls', ws, ht, hchained, nofun, fun _ => rfl⟩
  | free h => exact ⟨_, ls, ws, rfl, hs.free henabled.1 henabled.2.1, nofun, fun _ => rfl⟩
  | write h v => exact ⟨_, ls, ws, rfl, hs.write henabled v, nofun, fun _ => rfl⟩
  | caught h =>
    exact ⟨_, ls, ws, rfl, hs.caught henabled.1 henabled.2.1 henabled.2.2, nofun, fun _ => rfl⟩
  | dispatched h =>
    obtain ⟨t, ls', ht, hchained⟩ := hs.dispatched henabled.1 henabled.2.1
    exact ⟨t, ls', ws, ht, hchained, nofun, fun _ => rfl⟩
  | loop =>
    obtain ⟨t, ls', ws', ht, hchained, hproceeds⟩ := hs.runClosingHandles
    exact ⟨t, ls', ws', ht, hchained, fun _ => hproceeds, fun hne => absurd rfl hne⟩

/-! ### Every close is finished -/

/-- A handle that was made pending after `n` passes and whose close is not finished. -/
structure Waiting (s : ClosingLoop ι γ) (h : ι) (n : ℕ) : Prop where
  live : s.live h = true
  pendingAt : s.pendingAt h = some n
  queued : h ∈ s.handleQueue

omit [DecidableEq ι] in
theorem Placed.waiting_or_finished {n : ℕ} (hp : Placed s ls ws h) (hlive : s.live h = true)
    (hat : s.pendingAt h = some n) : Waiting s h n ∨ Finished s h := by
  cases hp with
  | unused hnone => cases hlive.symm.trans hnone
  | opened _ _ hnone | deferred _ _ hnone => cases hat.symm.trans hnone
  | pending hun | detached hun => exact .inl ⟨hlive, hat, hun.queued⟩
  | destroying _ _ _ _ hmem => exact .inl ⟨hlive, hat, hmem⟩
  | finished _ _ hfin => exact .inr hfin

omit [DecidableEq ι] in
/-- A handle that waits was made pending before the present pass, which has to reach it yet, or
since it began. -/
theorem Chained.waiting (hs : Chained s ls ws) {n : ℕ} (hw : Waiting s h n) :
    s.calls h = [] ∧ (n = s.passes ∨ n < s.passes ∧ s.phase ≠ .elsewhere) := by
  cases hs.placed h with
  | unused hnone => cases hw.live.symm.trans hnone
  | opened _ _ hnone | deferred _ _ hnone => cases hw.pendingAt.symm.trans hnone
  | pending hun _ hat =>
    exact ⟨hun.calls, .inl (Option.some.inj (hw.pendingAt.symm.trans hat))⟩
  | detached hun _ hat hlt _ _ hmem =>
    cases hw.pendingAt.symm.trans hat
    refine ⟨hun.calls, .inr ⟨hlt, fun hphase => ?_⟩⟩
    have hwalk := hs.walk
    rw [hphase] at hwalk
    exact not_mem_nil (leads_none.mp hwalk ▸ hmem)
  | destroying _ _ _ hcalls _ hat hlt _ hphase =>
    cases hw.pendingAt.symm.trans hat
    exact ⟨hcalls, .inr ⟨hlt, by simp [hphase]⟩⟩
  | finished _ _ hfin => exact absurd hw.queued hfin.queued

theorem step_phase (hstep : Step s e t) (hne : e ≠ .loop) :
    t.phase = s.phase ∧ t.passes = s.passes := by
  obtain ⟨-, hnext⟩ := ite_none_right_eq_some.mp hstep
  cases e with
  | close h closeCb =>
    obtain ⟨-, hnext⟩ := ite_none_left_eq_some.mp hnext
    split at hnext
    · cases hnext
      exact ⟨rfl, rfl⟩
    · obtain ⟨hphase, hpasses, -⟩ := uvMakeClosePending_rest hnext
      exact ⟨hphase, hpasses⟩
  | dispatched h =>
    rw [next, uvSignalDispatched] at hnext
    split at hnext
    · obtain ⟨hphase, hpasses, -⟩ := uvMakeClosePending_rest hnext
      exact ⟨hphase, hpasses⟩
    · cases hnext
      exact ⟨rfl, rfl⟩
  | init h type | free h | write h v | caught h =>
    cases hnext
    exact ⟨rfl, rfl⟩
  | loop => exact absurd rfl hne

theorem uvRunClosingHandles_rest (hnext : s.uvRunClosingHandles = some t) :
    t.live = s.live ∧ t.pendingAt = s.pendingAt := by
  rw [uvRunClosingHandles] at hnext
  split at hnext
  · cases hnext
    exact ⟨rfl, rfl⟩
  · cases hnext
    exact ⟨rfl, rfl⟩
  · rename_i p hphase
    obtain ⟨-, hnext⟩ := ite_none_right_eq_some.mp hnext
    dsimp only at hnext
    split at hnext
    · cases hnext
      exact ⟨rfl, rfl⟩
    · cases hnext
      obtain ⟨-, hlive, hpending, -⟩ := (s.setHandle p { s.handle p with
        closed := true }).callCloseCb_rest p (s.handle p).nextClosing
      exact ⟨hlive, hpending⟩
  · rename_i p q hphase
    cases hnext
    obtain ⟨-, hlive, hpending, -⟩ := s.callCloseCb_rest p q
    exact ⟨hlive, hpending⟩
  · cases hnext
    exact ⟨rfl, rfl⟩

theorem Chained.waiting_kept (hs : Chained s ls ws) (hstep : Step s e t) {n : ℕ}
    (hw : Waiting s h n) : t.live h = true ∧ t.pendingAt h = some n := by
  obtain ⟨henabled, hnext⟩ := ite_none_right_eq_some.mp hstep
  have hkept {k : ι} (hk : s.pendingAt k = none) : h ≠ k := by
    rintro rfl
    cases hw.pendingAt.symm.trans hk
  cases e with
  | init k type =>
    have hk : h ≠ k := by
      rintro rfl
      cases hw.live.symm.trans henabled.1
    cases hnext
    exact ⟨(update_of_ne hk ..).trans hw.live,
      (update_of_ne hk ..).trans hw.pendingAt⟩
  | close k closeCb =>
    obtain ⟨hlive, hopen, -⟩ := henabled
    have hk : s.pendingAt k = none := ((hs.placed k).of_open hlive hopen).2.1
    obtain ⟨-, hnext⟩ := ite_none_left_eq_some.mp hnext
    split at hnext
    · cases hnext
      exact ⟨hw.live, hw.pendingAt⟩
    · obtain ⟨-, -, hsame, hpending⟩ := uvMakeClosePending_rest hnext
      exact ⟨hsame ▸ hw.live, (hpending h (hkept hk)).trans hw.pendingAt⟩
  | free k =>
    have hk : h ≠ k := ne_of_mem_of_not_mem hw.queued henabled.2.1
    cases hnext
    exact ⟨(update_of_ne hk ..).trans hw.live, hw.pendingAt⟩
  | write k v | caught k =>
    cases hnext
    exact ⟨hw.live, hw.pendingAt⟩
  | dispatched k =>
    obtain ⟨hlive, htrapped, -⟩ := henabled
    have hne := (Nat.ne_of_lt htrapped).symm
    have hk : s.pendingAt k = none := by
      cases hs.placed k with
      | opened _ _ hat | deferred _ _ hat => exact hat
      | unused hnone => cases hlive.symm.trans hnone
      | pending _ _ _ hcounts | detached _ _ _ _ hcounts | destroying _ _ _ _ _ _ _ hcounts
      | finished _ _ _ hcounts => exact absurd hcounts hne
    rw [next, uvSignalDispatched] at hnext
    split at hnext
    · obtain ⟨-, -, hsame, hpending⟩ := uvMakeClosePending_rest hnext
      exact ⟨hsame ▸ hw.live, (hpending h (hkept hk)).trans hw.pendingAt⟩
    · cases hnext
      exact ⟨hw.live, hw.pendingAt⟩
  | loop =>
    obtain ⟨hlive, hpending⟩ := uvRunClosingHandles_rest hnext
    exact ⟨hlive ▸ hw.live, hpending ▸ hw.pendingAt⟩

/-- A handle waits, and the present pass has at most `r` to do. -/
def Awaits (h : ι) (n r : ℕ) (s : ClosingLoop ι γ) : Prop :=
  ∃ ls ws, Chained s ls ws ∧ Waiting s h n ∧ rank ws.length s.phase = r

theorem Awaits.step {n r : ℕ} (hs : Awaits h n r s) (hstep : Step s e t) :
    Finished t h ∨
      (e ≠ .loop ∧ Awaits h n r t ∧ t.passes = s.passes) ∨
      (e = .loop ∧ s.phase = .elsewhere ∧ (∃ r', Awaits h n r' t) ∧ n < t.passes) ∨
      (e = .loop ∧ (∃ r', r' < r ∧ Awaits h n r' t) ∧ t.passes = s.passes) := by
  obtain ⟨ls, ws, hchained, hw, rfl⟩ := hs
  obtain ⟨henabled, -⟩ := ite_none_right_eq_some.mp hstep
  obtain ⟨u, ls', ws', hu, hnext, hloop, hrest⟩ := hchained.step henabled
  cases hstep.symm.trans hu
  obtain ⟨hlive, hat⟩ := hchained.waiting_kept hstep hw
  rcases (hnext.placed h).waiting_or_finished hlive hat with hw' | hfin
  · by_cases he : e = .loop
    · rcases hloop he with ⟨hphase, hpasses⟩ | ⟨-, hpasses, hlt⟩
      · refine .inr (.inr (.inl ⟨he, hphase, ⟨_, ls', ws', hnext, hw', rfl⟩, ?_⟩))
        have hle := (hchained.waiting hw).2
        omega
      · exact .inr (.inr (.inr ⟨he, ⟨_, hlt, ls', ws', hnext, hw', rfl⟩, hpasses⟩))
    · obtain ⟨hphase, hpasses⟩ := step_phase hstep he
      obtain rfl := hrest he
      exact .inr (.inl ⟨he, ⟨ls', ws', hnext, hw', by rw [hphase]⟩, hpasses⟩)
  · exact .inl hfin

theorem leadsTo_finished_of_lt {x : Execution (Step (ι := ι) (γ := γ))}
    (hfair : x.Fair (Enabled · .loop) .loop) (h : ι) (n r : ℕ) :
    x.LeadsTo (fun s => Awaits h n r s ∧ n < s.passes) (Finished · h) := by
  have hinside {s : ClosingLoop ι γ} {r : ℕ} (hs : Awaits h n r s) (hlt : n < s.passes) :
      s.phase ≠ .elsewhere := by
    obtain ⟨ls, ws, hchained, hw, -⟩ := hs
    rcases (hchained.waiting hw).2 with heq | ⟨-, hphase⟩
    · omega
    · exact hphase
  refine hfair.leadsTo_of_rank (R := fun r s => Awaits h n r s ∧ n < s.passes)
    (fun _ _ _ => trivial) ?_ ?_ r
  · rintro r m ⟨hs, hlt⟩ he
    rcases hs.step (x.next m) with hfin | ⟨hne, -⟩ | ⟨-, hphase, -⟩ | ⟨-, ⟨r', hr, hr'⟩, hpasses⟩
    · exact .inr hfin
    · exact absurd he hne
    · exact absurd hphase (hinside hs hlt)
    · exact .inl ⟨r', hr, hr', hpasses ▸ hlt⟩
  · rintro r m ⟨hs, hlt⟩ hne
    rcases hs.step (x.next m) with hfin | ⟨-, hr, hpasses⟩ | ⟨he, -⟩ | ⟨he, -⟩
    · exact .inr hfin
    · exact .inl ⟨hr, hpasses ▸ hlt⟩
    · exact absurd he hne
    · exact absurd he hne

theorem leadsTo_finished {x : Execution (Step (ι := ι) (γ := γ))}
    (hfair : x.Fair (Enabled · .loop) .loop) (h : ι) (n r : ℕ) :
    x.LeadsTo (Awaits h n r) (Finished · h) := by
  have htaken : x.LeadsTo (Awaits h n r) fun s =>
      (∃ r, Awaits h n r s ∧ n < s.passes) ∨ Finished s h := by
    refine hfair.leadsTo_of_rank (R := Awaits h n) (fun _ _ _ => trivial) ?_ ?_ r
    · intro r m hs he
      rcases hs.step (x.next m) with hfin | ⟨hne, -⟩ | ⟨-, -, ⟨r', hr'⟩, hlt⟩ | ⟨-, hr, -⟩
      · exact .inr (.inr hfin)
      · exact absurd he hne
      · exact .inr (.inl ⟨r', hr', hlt⟩)
      · exact .inl hr
    · intro r m hs hne
      rcases hs.step (x.next m) with hfin | ⟨-, hr, -⟩ | ⟨he, -⟩ | ⟨he, -⟩
      · exact .inr (.inr hfin)
      · exact .inl hr
      · exact absurd he hne
      · exact absurd he hne
  refine htaken.trans (Execution.LeadsTo.or ?_ .refl)
  rintro m ⟨r', hm⟩
  exact leadsTo_finished_of_lt hfair h n r' m hm

/-! ### Runs -/

omit [DecidableEq ι] in
theorem Chained.of_init (h : Init s) : Chained s [] [] := by
  obtain ⟨hhandles, hqueue, hphase, hlive⟩ := h
  refine ⟨?_, ?_, ⟨nodup_nil, nodup_nil⟩, ?_, ?_, ?_⟩
  · exact hhandles ▸ .nil
  · rw [hphase]
    exact .nil
  · simp [hqueue]
  · simp [hphase]
  · exact fun k => .unused (hlive k) (by simp [hqueue]) not_mem_nil not_mem_nil

theorem Chained.of_reachable (h : Reachable Init Step s) : ∃ ls ws, Chained s ls ws := by
  refine h.invariant (P := fun s => ∃ ls ws, Chained s ls ws)
    (fun s hinit => ⟨[], [], .of_init hinit⟩) ?_
  rintro s e t _ ⟨ls, ws, hs⟩ hstep
  obtain ⟨henabled, -⟩ := ite_none_right_eq_some.mp hstep
  obtain ⟨u, ls', ws', hu, hnext, -⟩ := hs.step henabled
  rw [Option.some.inj (hstep.symm.trans hu)]
  exact ⟨ls', ws', hnext⟩

/-- An open handle is in `handle_queue`. One that was closed stays there until its close callback
is called, once, in a pass that began after it was made pending; only a signal with caught signals
that are not dispatched is not made pending at once. No assertion fails, and if the loop goes on
every handle that is pending is finished. -/
theorem closed_once (h : Reachable Init Step s) :
    (∀ k, s.live k = true →
      ((s.handle k).closing = false → k ∈ s.handleQueue ∧ s.calls k = []) ∧
      ((s.handle k).closing = true → s.pendingAt k = none →
        (s.handle k).type = .signal ∧
        (s.handle k).dispatchedSignals < (s.handle k).caughtSignals ∧
        k ∈ s.handleQueue ∧ s.calls k = []) ∧
      ∀ n, s.pendingAt k = some n →
        (k ∈ s.handleQueue ∧ s.calls k = [] ∧ (n < s.passes → s.phase ≠ .elsewhere)) ∨
          Finished s k) ∧
    (∀ k, s.live k = false → k ∉ s.handleQueue) ∧ s.handleQueue.Nodup ∧
    (∀ e, Enabled s e → ∃ t, Step s e t) ∧
    ∀ x : Execution Step, x.state 0 = s → x.Fair (Enabled · .loop) .loop →
      ∀ m k, (x.state m).live k = true → (x.state m).pendingAt k ≠ none →
        ∃ m', m ≤ m' ∧ Finished (x.state m') k := by
  obtain ⟨ls, ws, hs⟩ := Chained.of_reachable h
  refine ⟨fun k hlive => ⟨?_, ?_, ?_⟩, ?_, hs.queue, ?_, ?_⟩
  · intro hopen
    have hun := ((hs.placed k).of_open hlive hopen).1
    exact ⟨hun.queued, hun.calls⟩
  · intro hclosing hnone
    cases hs.placed k with
    | deferred hun _ _ hlt htype => exact ⟨htype, hlt, hun.queued, hun.calls⟩
    | unused hunused => cases hlive.symm.trans hunused
    | opened _ hopen => cases hopen.symm.trans hclosing
    | pending _ _ hat | detached _ _ hat | destroying _ _ _ _ _ hat => cases hnone.symm.trans hat
    | finished _ _ hfin =>
      obtain ⟨n, -, hat, -⟩ := hfin.called
      cases hnone.symm.trans hat
  · intro n hat
    apply ((hs.placed k).waiting_or_finished hlive hat).imp_left
    intro hw
    obtain ⟨hcalls, hwhen⟩ := hs.waiting hw
    refine ⟨hw.queued, hcalls, fun hlt => ?_⟩
    exact (hwhen.resolve_left (Nat.ne_of_lt hlt)).2
  · exact fun k hnone => ((hs.placed k).of_dead hnone).1
  · intro e henabled
    obtain ⟨t, -, -, ht, -⟩ := hs.step henabled
    exact ⟨t, ht⟩
  · rintro x rfl hfair m k hlive hpending
    obtain ⟨n, hat⟩ := Option.ne_none_iff_exists'.mp hpending
    obtain ⟨ls', ws', hm⟩ := Chained.of_reachable (x.reachable h m)
    rcases (hm.placed k).waiting_or_finished hlive hat with hw | hfin
    · exact leadsTo_finished hfair k n _ m ⟨ls', ws', hm, hw, rfl⟩
    · exact ⟨m, Nat.le_refl m, hfin⟩

/-! ### A concrete run -/

def emptyLoop : ClosingLoop ℕ ℕ where
  handle _ := ⟨.timer, false, false, none, none, 0, 0⟩
  closingHandles := none
  handleQueue := []
  phase := .elsewhere
  passes := 0
  live _ := false
  pendingAt _ := none
  calls _ := []

theorem init_emptyLoop : Init emptyLoop := ⟨rfl, rfl, rfl, fun _ => rfl⟩

/-- A stream, a signal with a caught signal and a timer are closed, the timer from a callback of
the stream; the first pass finishes the stream, which is freed, and the second one the others. -/
theorem closed_once_three : ∃ s : ClosingLoop ℕ ℕ, s.passes = 2 ∧ s.calls 2 = [(20, 2)] ∧
    s.calls 3 = [(30, 2)] ∧ s.handleQueue = [] ∧ 1 ∉ s.handleQueue := by
  have hsome : ([Event.init 1 .tcp, .init 2 .signal, .init 3 .timer, .caught 2, .close 1 (some 10),
      .close 2 (some 20), .loop, .loop, .close 3 (some 30), .loop, .free 1, .loop, .loop,
      .dispatched 2, .loop, .loop, .loop, .loop].foldlM step emptyLoop).isSome = true := by rfl
  have hclosed := closed_once (.of_foldlM (.init init_emptyLoop) (Option.some_get hsome).symm)
  exact ⟨_, by rfl, by rfl, by rfl, by rfl, hclosed.2.1 1 (by rfl)⟩

end ClosingLoop

end LibuvWorks.Unix
