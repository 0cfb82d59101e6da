import LibuvWorks.Unix.Connect

/-!
# Every connect request is completed once

A request is in `active_reqs` until it is completed, and `connect_req` is the one that is not. A
second request in its place, a write for the attempt that is made from the callback of a failed one,
and a callback that is null when the stream is closed break this.
-/
namespace LibuvWorks.Unix

open Transition List

/-- The error is that of the attempt, or of the closing of the stream. -/
def ConnectDone.Legit (closing : Bool) (c : ConnectDone) : Prop :=
  match c.cause with
  | .delayedError => c.error = c.req.failed ∧ c.req.failed ≠ 0
  | .soError => c.error ≤ 0 ∧ c.req.failed = 0
  | .closed => c.error = uvEcanceled ∧ closing = true

namespace ConnectStream

variable {s t : ConnectStream} {e : Event}

/-- The request that is in `active_reqs` -/
def registered (s : ConnectStream) : Option ConnectReq :=
  if s.phase = .destroyCb then none else s.connectReq

/-- How often the request is in `active_reqs`. -/
def active (s : ConnectStream) (i : ℕ) : ℕ := s.activeReqs.count (.connect i)

def dones (s : ConnectStream) (i : ℕ) : ℕ := s.completed.countP fun c => c.req.id = i

/-- The write was cancelled since the attempt that it waited for failed, or since the stream was
closed. -/
def Justified (s : ConnectStream) (w : WaitingWrite × Option ℕ) : Prop :=
  match w.2 with
  | some i => (∃ c ∈ s.completed, c.req.id = i ∧ c.error < 0) ∧
      (w.1.attempt = none ∨ w.1.attempt = some i)
  | none => s.closing = true

structure Sound (s : ConnectStream) : Prop where
  once : ∀ i, s.active i + s.dones i = if i < s.accepted then 1 else 0
  current : ∀ i, 0 < s.active i → ∃ r, s.registered = some r ∧ r.id = i
  registered : ∀ r, s.registered = some r → 0 < s.active r.id ∧ s.delayedError = r.failed ∧
    r.failed ≠ uvEinprogress ∧ (r.failed ≠ 0 → s.closing = false → s.fed = true)
  legit : ∀ c ∈ s.completed, c.Legit s.closing
  calls : s.calls = (s.completed.filter (·.req.hasCb)).map fun c => (c.req.id, c.error)
  cancelled : ∀ w ∈ s.cancelled, s.Justified w
  failing : ∀ id error, s.phase = .connectCb id error →
    (∃ c ∈ s.completed, c.req.id = id ∧ c.error = error) ∧
      (error < 0 → ∀ w ∈ s.writeQueue, w.attempt = none ∨ w.attempt = some id)
  destroying : s.phase = .destroyCb → s.closing = true
  alive : s.phase ≠ .crashed

theorem phase_of_write {result : WriteResult} (ht : s.uvWrite result = some t) :
    t.phase = s.phase := by
  unfold uvWrite at ht
  split at ht
  · cases ht
  split at ht <;> cases ht <;> rfl

namespace Sound

theorem keep (h : Sound s) {activeReqs : List ActiveReq} {fed : Bool}
    {writeQueue writeCompletedQueue : List WaitingWrite} {phase : ConnectPhase} {writes : ℕ}
    (hcount : ∀ i, activeReqs.count (.connect i) = s.active i) (hfed : s.fed = true → fed = true)
    (hregistered : (if phase = .destroyCb then none else s.connectReq) = s.registered)
    (hfailing : ∀ id error, phase = .connectCb id error → s.phase = .connectCb id error ∧
      (error < 0 → ∀ w ∈ writeQueue, w ∈ s.writeQueue ∨ w.attempt = none ∨ w.attempt = some id))
    (hdestroying : phase = .destroyCb → s.closing = true) (halive : phase ≠ .crashed) :
    Sound { s with activeReqs, fed, writeQueue, writeCompletedQueue, phase, writes } := by
  constructor
  · intro i
    change activeReqs.count (.connect i) + s.dones i = _
    rw [hcount]
    exact h.once i
  · intro i hi
    change 0 < activeReqs.count (.connect i) at hi
    change ∃ r, (if phase = .destroyCb then none else s.connectReq) = some r ∧ r.id = i
    rw [hcount] at hi
    rw [hregistered]
    exact h.current i hi
  · intro r hr
    change (if phase = .destroyCb then none else s.connectReq) = some r at hr
    change 0 < activeReqs.count (.connect r.id) ∧ _
    rw [hregistered] at hr
    rw [hcount]
    obtain ⟨hactive, hdelayed, hne, hold⟩ := h.registered r hr
    exact ⟨hactive, hdelayed, hne, fun hfailed hopen => hfed (hold hfailed hopen)⟩
  · exact h.legit
  · exact h.calls
  · exact h.cancelled
  · intro id error hphase
    obtain ⟨hold, hqueue⟩ := hfailing id error hphase
    obtain ⟨hdone, hwrites⟩ := h.failing id error hold
    refine ⟨hdone, fun hneg w hw => ?_⟩
    rcases hqueue hneg w hw with hw | hw
    · exact hwrites hneg w hw
    · exact hw
  · exact hdestroying
  · exact halive

/-! ### Writes -/

theorem write (h : Sound s) {result : WriteResult} (ht : s.uvWrite result = some t) : Sound t := by
  unfold uvWrite at ht
  split at ht
  · cases ht
  split at ht
  · cases ht
    exact h
  · cases ht
    exact h
  · next req writeQueue hqueue _ =>
    cases ht
    apply h.keep
    · exact fun _ => rfl
    · exact fun _ => rfl
    · rfl
    · intro id error hphase
      refine ⟨hphase, fun _ w hw => .inl ?_⟩
      rw [hqueue]
      exact mem_cons_of_mem _ hw
    · exact h.destroying
    · exact h.alive

theorem queue (h : Sound s) (hcareful : ∀ id error, s.phase = .connectCb id error → error < 0 →
      s.connectReq = none) :
    Sound { s with
      activeReqs := s.activeReqs ++ [.write s.writes]
      writeQueue := s.writeQueue ++ [⟨s.writes, s.connectReq.map (·.id)⟩]
      writes := s.writes + 1 } := by
  apply h.keep
  · intro i
    rw [count_append]
    rfl
  · exact id
  · rfl
  · intro id error hphase
    refine ⟨hphase, fun hneg w hw => ?_⟩
    rcases mem_append.mp hw with hw | hw
    · exact .inl hw
    · rw [mem_singleton.mp hw, hcareful id error hphase hneg]
      exact .inr (.inl rfl)
  · exact h.destroying
  · exact h.alive

theorem write2 (h : Sound s) {emptyQueue : Bool} {result : WriteResult}
    (hcareful : 0 ≤ s.fd → ∀ id error, s.phase = .connectCb id error → error < 0 →
      s.connectReq = none)
    (ht : s.uvWrite2 emptyQueue result = some t) : Sound t := by
  unfold uvWrite2 at ht
  split at ht
  · cases ht
    exact h
  · next hfd =>
    have hqueued := h.queue (hcareful (by omega))
    dsimp only at ht
    split at ht
    · cases ht
      exact hqueued
    split at ht
    · exact hqueued.write ht
    · cases ht
      exact hqueued

theorem writeCallbacks (h : Sound s) (caller : Caller)
    (hphase : s.phase = .destroyCb → s.connectReq = none) : Sound (s.uvWriteCallbacks caller) := by
  have hregistered : s.connectReq = s.registered := by
    rw [ConnectStream.registered]
    split
    · next hdestroy => exact hphase hdestroy
    · rfl
  unfold uvWriteCallbacks
  split
  · next req writeCompletedQueue _ =>
    apply h.keep
    · intro i
      rw [count_erase_of_ne (by simp)]
      rfl
    · exact id
    · exact hregistered
    · exact fun id error => nofun
    · exact nofun
    · exact nofun
  · exact h.keep (fun _ => rfl) id hregistered (fun id error => nofun) nofun nofun

theorem flush (h : Sound s) {cause : Option ℕ}
    (hjustified : ∀ w ∈ s.writeQueue, s.Justified (w, cause)) :
    Sound (s.uvStreamFlushWriteQueue cause) := by
  exact { h with
    cancelled := by
      intro w hw
      rcases mem_append.mp hw with hw | hw
      · exact h.cancelled w hw
      · obtain ⟨req, hreq, rfl⟩ := mem_map.mp hw
        exact hjustified req hreq
    failing := by
      intro id error hphase
      exact ⟨(h.failing id error hphase).1, fun _ w hw => absurd hw not_mem_nil⟩ }

/-! ### Connect requests -/

section

variable (h : Sound s) {error : ℤ} {req : ConnectReq} {fed : Bool}
include h

theorem registered_none (hnone : s.registered = none) (i : ℕ) : s.active i = 0 := by
  by_contra hne
  obtain ⟨r, hr, -⟩ := h.current i (Nat.pos_of_ne_zero hne)
  cases hnone.symm.trans hr

/-- Where no request is registered, `delayed_error` and the descriptor do not matter. -/
theorem reset (hnone : s.registered = none) (fd delayedError : ℤ) :
    Sound { s with fd, delayedError } := by
  refine { h with registered := fun r hr => ?_ }
  cases hnone.symm.trans hr

theorem accept (hopen : s.closing = false) (hnone : s.connectReq = none)
    (hdelayed : s.delayedError ≠ uvEinprogress) (hasCb : Bool) : Sound (s.accept hasCb) := by
  have hphase : s.phase ≠ .destroyCb := fun habs => by cases hopen.symm.trans (h.destroying habs)
  have hregistered : (s.accept hasCb).registered = some ⟨s.accepted, hasCb, s.delayedError⟩ :=
    if_neg hphase
  have hzero : ∀ i, s.active i = 0 := by
    apply h.registered_none
    rw [ConnectStream.registered, if_neg hphase, hnone]
  have hactive : ∀ i, (s.accept hasCb).active i = if i = s.accepted then 1 else 0 := by
    intro i
    have hold := hzero i
    rw [active] at hold ⊢
    rw [ConnectStream.accept, count_append, hold, Nat.zero_add]
    split_ifs with e
    · rw [e, count_singleton_self]
    · rw [count_eq_zero]
      intro habs
      exact e (ActiveReq.connect.inj (mem_singleton.mp habs))
  exact { h with
    once := by
      intro i
      have honce := h.once i
      rw [hzero i] at honce
      change (s.accept hasCb).active i + s.dones i = if i < s.accepted + 1 then 1 else 0
      rw [hactive]
      split_ifs at honce ⊢ <;> omega
    current := by
      intro i hi
      rw [hactive] at hi
      refine ⟨_, hregistered, ?_⟩
      by_contra hne
      rw [if_neg (Ne.symm hne)] at hi
      cases hi
    registered := by
      intro r hr
      cases hregistered.symm.trans hr
      refine ⟨?_, rfl, hdelayed, fun hfailed _ => ?_⟩
      · rw [hactive, if_pos rfl]
        exact Nat.one_pos
      · change (s.fed || decide (s.delayedError ≠ 0)) = true
        rw [decide_eq_true hfailed, Bool.or_true] }

theorem registered_of_open (hopen : s.closing = false) :
    s.registered = s.connectReq :=
  if_neg fun habs => by cases hopen.symm.trans (h.destroying habs)

theorem tcpConnect (hopen : s.closing = false) (hasCb : Bool) (sock : ℤ)
    (errno : ℕ) : Sound (s.uvTcpConnect hasCb sock errno) := by
  unfold uvTcpConnect
  split
  · exact h
  split
  · exact h
  next hnone _ =>
  have hfree : s.connectReq = none := by simpa using hnone
  have hreset := h.reset ((h.registered_of_open hopen).trans hfree)
    (if s.fd = -1 then sock else s.fd) (if errno = econnrefused then -econnrefused else 0)
  dsimp only
  split
  · apply hreset.accept hopen hfree
    dsimp only
    split <;> decide
  · exact hreset

theorem pipeConnect (hopen : s.closing = false) (hfree : s.connectReq = none)
    (hasCb : Bool) {sock : ℤ} (hsock : sock ≠ uvEinprogress) (errno : ℕ) :
    Sound (s.uvPipeConnect hasCb sock errno) := by
  have hreset := h.reset ((h.registered_of_open hopen).trans hfree)
  unfold uvPipeConnect
  split
  · exact (hreset s.fd sock).accept hopen hfree hsock hasCb
  · have hdelayed :
        (if errno = 0 ∨ errno = einprogress then 0 else -(errno : ℤ)) ≠ uvEinprogress := by
      split
      · decide
      · next herrno =>
        unfold uvEinprogress
        unfold einprogress at herrno
        omega
    exact (hreset (if s.fd = -1 then sock else s.fd) _).accept hopen hfree hdelayed hasCb

theorem connectReturned {id : ℕ} (hdone : ∃ c ∈ s.completed, c.req.id = id ∧ c.error = error)
    (hwrites : error < 0 → ∀ w ∈ s.writeQueue, w.attempt = none ∨ w.attempt = some id)
    (hphase : s.phase ≠ .destroyCb) : Sound (s.connectReturned id error) := by
  unfold ConnectStream.connectReturned
  split
  · exact h.keep (fun _ => rfl) (fun hfed => hfed) (if_neg hphase).symm (fun _ _ => nofun) nofun
      nofun
  · next hfails =>
    have hneg : error < 0 := by omega
    obtain ⟨c, hc, hid, herror⟩ := hdone
    apply writeCallbacks
    · apply h.flush
      exact fun w hw => ⟨⟨c, hc, hid, herror ▸ hneg⟩, hwrites hneg w hw⟩
    · exact fun habs => absurd habs hphase

theorem done (hreq : s.registered = some req) {c : ConnectDone}
    (hc : c.req = req) (hlegit : c.Legit s.closing) {calls : List (ℕ × ℤ)} {phase : ConnectPhase}
    {connectReq : Option ConnectReq} {delayedError : ℤ} {closed : Bool}
    (hcalls : calls = if req.hasCb then s.calls ++ [(req.id, c.error)] else s.calls)
    (hregistered : (if phase = .destroyCb then none else connectReq) = none)
    (hfailing : ∀ id error, phase = .connectCb id error → req.id = id ∧ c.error = error ∧
      (error < 0 → ∀ w ∈ s.writeQueue, w.attempt = none ∨ w.attempt = some id))
    (hdestroying : phase = .destroyCb → s.closing = true) (halive : phase ≠ .crashed) :
    Sound { s with
      closed
      connectReq
      delayedError
      fed
      activeReqs := s.activeReqs.erase (.connect req.id)
      completed := s.completed ++ [c]
      calls
      phase } := by
  subst hc
  have hmem : 0 < s.active c.req.id := (h.registered _ hreq).1
  have hcompleted : ∀ c' ∈ s.completed, c' ∈ s.completed ++ [c] := fun c' hc' =>
    mem_append_left _ hc'
  have hsplit : ∀ i, (s.activeReqs.erase (.connect c.req.id)).count (.connect i) +
      (s.completed ++ [c]).countP (fun c => c.req.id = i) = s.active i + s.dones i := by
    intro i
    rw [countP_append, active, dones]
    by_cases e : i = c.req.id
    · subst e
      rw [count_erase_self, countP_singleton, if_pos (decide_eq_true rfl)]
      rw [active] at hmem
      omega
    · have hne : ActiveReq.connect i ≠ .connect c.req.id :=
        fun habs => e (ActiveReq.connect.inj habs)
      rw [count_erase_of_ne hne, countP_singleton,
        if_neg fun habs => e (of_decide_eq_true habs).symm, Nat.add_zero]
  constructor
  · intro i
    rw [← h.once i]
    exact hsplit i
  · intro i hi
    change 0 < (s.activeReqs.erase (.connect c.req.id)).count (.connect i) at hi
    by_cases e : i = c.req.id
    · subst e
      have honce := h.once c.req.id
      rw [count_erase_self] at hi
      rw [active] at honce
      split_ifs at honce <;> omega
    · have hne : ActiveReq.connect i ≠ .connect c.req.id :=
        fun habs => e (ActiveReq.connect.inj habs)
      rw [count_erase_of_ne hne] at hi
      obtain ⟨r, hr, hid⟩ := h.current i hi
      cases hreq.symm.trans hr
      exact absurd hid.symm e
  · intro r hr
    cases hregistered.symm.trans hr
  · intro c' hc'
    rcases mem_append.mp hc' with hc' | hc'
    · exact h.legit c' hc'
    · rw [mem_singleton.mp hc']
      exact hlegit
  · rw [hcalls, h.calls, filter_append, map_append]
    cases hcb : c.req.hasCb with
    | false | true => simp [hcb]
  · intro w hw
    have hold := h.cancelled w hw
    unfold Justified at hold ⊢
    split at hold
    · obtain ⟨⟨c', hc', hfails⟩, hwrite⟩ := hold
      exact ⟨⟨c', hcompleted c' hc', hfails⟩, hwrite⟩
    · exact hold
  · intro id error hphase
    obtain ⟨hid, herror, hwrites⟩ := hfailing id error hphase
    exact ⟨⟨c, mem_append_right _ (mem_singleton_self c), hid, herror⟩, hwrites⟩
  · exact hdestroying
  · exact halive

theorem complete {cause : ConnectCause}
    {delayedError : ℤ} (hidle : s.phase = .idle) (hreq : s.connectReq = some req)
    (hne : error ≠ uvEinprogress) (hlegit : ConnectDone.Legit s.closing ⟨req, error, cause⟩)
    (hwrites : error < 0 → ∀ w ∈ s.writeQueue, w.attempt = none ∨ w.attempt = some req.id) :
    Sound ({ s with delayedError, fed }.complete req error cause) := by
  have hregistered : s.registered = some req := by
    rw [ConnectStream.registered, hidle, if_neg nofun, hreq]
  unfold ConnectStream.complete
  rw [if_neg hne]
  split
  · next hcb =>
    apply h.done hregistered rfl hlegit
    · rw [if_pos hcb]
    · exact if_neg nofun
    · intro id error' hphase
      cases hphase
      exact ⟨rfl, rfl, hwrites⟩
    · exact nofun
    · exact nofun
  · next hcb =>
    apply Sound.connectReturned
    · apply h.done hregistered rfl hlegit
      · rw [if_neg hcb]
      · rw [hidle]
        rfl
      · rw [hidle]
        exact nofun
      · rw [hidle]
        exact nofun
      · exact h.alive
    · exact ⟨_, mem_append_right _ (mem_singleton_self _), rfl, rfl⟩
    · exact hwrites
    · rw [hidle]
      exact nofun

/-- Where no error is delayed, nobody needs to find the watcher in `pending_queue`. -/
theorem unfed (hnone : ∀ r, s.registered = some r → r.failed = 0) (fed : Bool) :
    Sound { s with fed } := by
  refine { h with registered := fun r hr => ?_ }
  obtain ⟨hactive, hdelayed, hne, -⟩ := h.registered r hr
  exact ⟨hactive, hdelayed, hne, fun hfailed => absurd (hnone r hr) hfailed⟩

theorem streamConnect
    (hidle : s.phase = .idle) (hreq : s.connectReq = some req) (herror : error ≤ 0)
    (hwrites : (if s.delayedError ≠ 0 then s.delayedError else error) < 0 →
      ∀ w ∈ s.writeQueue, w.attempt = none ∨ w.attempt = some req.id)
    (ht : { s with fed }.uvStreamConnect req error = some t) : Sound t := by
  have hregistered : s.registered = some req := by
    rw [ConnectStream.registered, hidle, if_neg nofun, hreq]
  obtain ⟨-, hdelayed, hne, -⟩ := h.registered req hregistered
  unfold uvStreamConnect at ht
  split at ht
  · next hset =>
    cases ht
    rw [if_pos hset] at hwrites
    apply h.complete hidle hreq
    · rw [hdelayed]
      exact hne
    · exact ⟨hdelayed, hdelayed ▸ hset⟩
    · exact hwrites
  · next hunset =>
    split at ht
    · cases ht
    cases ht
    rw [if_neg hunset] at hwrites
    have hfailed : req.failed = 0 := hdelayed.symm.trans (Decidable.not_not.mp hunset)
    by_cases hprogress : error = uvEinprogress
    · rw [ConnectStream.complete, if_pos hprogress]
      apply h.unfed
      intro r hr
      cases hregistered.symm.trans hr
      exact hfailed
    · exact h.complete hidle hreq hprogress ⟨herror, hfailed⟩ hwrites

theorem streamIo (fed : Bool) (hidle : s.phase = .idle) (herror : error ≤ 0)
    (hwrites : ∀ req, s.connectReq = some req →
      (if s.delayedError ≠ 0 then s.delayedError else error) < 0 →
        ∀ w ∈ s.writeQueue, w.attempt = none ∨ w.attempt = some req.id)
    (ht : { s with fed }.uvStreamIo error = some t) : Sound t := by
  unfold uvStreamIo at ht
  split at ht
  · next req hreq => exact h.streamConnect hidle hreq herror (hwrites req hreq) ht
  · next hnone =>
    have hregistered : s.registered = none := by
      rw [ConnectStream.registered, hidle]
      exact hnone
    split at ht
    · cases ht
    cases ht
    have hunfed : Sound { s with fed } :=
      h.unfed (fun r hr => by cases hregistered.symm.trans hr) fed
    apply hunfed.keep (fun _ => rfl) (fun hfed => hfed)
    · rw [hidle]
      rfl
    · exact fun _ _ => nofun
    · exact nofun
    · exact nofun

end

/-! ### Closing -/

theorem close (h : Sound s) : Sound s.uvStreamClose := by
  constructor
  · exact h.once
  · exact h.current
  · intro r hr
    obtain ⟨hactive, hdelayed, hne, -⟩ := h.registered r hr
    exact ⟨hactive, hdelayed, hne, fun _ => nofun⟩
  · intro c hc
    have hold := h.legit c hc
    unfold ConnectDone.Legit at hold ⊢
    split at hold
    · exact hold
    · exact hold
    · exact ⟨hold.1, rfl⟩
  · exact h.calls
  · intro w hw
    have hold := h.cancelled w hw
    unfold Justified at hold ⊢
    split at hold
    · exact hold
    · rfl
  · exact h.failing
  · exact fun _ => rfl
  · exact h.alive

theorem destroyWrites (h : Sound s) (hclosing : s.closing = true)
    (hnone : s.registered = none) : Sound s.destroyWrites := by
  have hforgotten : Sound { s with connectReq := none } := by
    have hregistered : ConnectStream.registered { s with connectReq := none } = none := by
      rw [ConnectStream.registered]
      split <;> rfl
    refine { h with current := fun i hi => ?_, registered := fun r hr => ?_ }
    · obtain ⟨r, hr, -⟩ := h.current i hi
      cases hnone.symm.trans hr
    · cases hregistered.symm.trans hr
  have hflushed : Sound (uvStreamFlushWriteQueue { s with connectReq := none } none) :=
    hforgotten.flush fun _ _ => hclosing
  exact hflushed.writeCallbacks .destroy fun _ => rfl

theorem destroy (h : Sound s) (hidle : s.phase = .idle) (hclosing : s.closing = true)
    (hcareful : ∀ req, s.connectReq = some req → req.hasCb = true) :
    Sound s.uvStreamDestroy := by
  have hregistered : s.registered = s.connectReq := by
    rw [ConnectStream.registered, hidle]
    rfl
  unfold uvStreamDestroy
  dsimp only
  split
  · next req hreq =>
    have hcb := hcareful req hreq
    rw [if_pos hcb]
    apply h.done (hregistered.trans hreq)
    · rfl
    · exact ⟨rfl, hclosing⟩
    · rw [if_pos hcb]
    · rfl
    · exact fun _ _ => nofun
    · exact fun _ => hclosing
    · exact nofun
  · next hnone =>
    have hclosed : Sound { s with closed := true } := { h with }
    exact hclosed.destroyWrites hclosing (hregistered.trans hnone)

theorem return_ (h : Sound s) (ht : s.returned = some t) : Sound t := by
  unfold returned at ht
  split at ht
  · cases ht
  · cases ht
  · next id error hphase =>
    cases ht
    obtain ⟨hdone, hwrites⟩ := h.failing id error hphase
    apply h.connectReturned hdone hwrites
    rw [hphase]
    exact nofun
  · next hphase =>
    cases ht
    apply h.keep (fun _ => rfl) (fun hfed => hfed)
    · rw [ConnectStream.registered, hphase]
      rfl
    · exact fun _ _ => nofun
    · exact nofun
    · exact nofun
  · next caller hphase =>
    cases ht
    apply h.writeCallbacks
    rw [hphase]
    exact nofun
  · next hphase =>
    cases ht
    apply h.destroyWrites (h.destroying hphase)
    rw [ConnectStream.registered, if_pos hphase]

end Sound

/-- What a caller can do to have its requests treated right: no second request is made while one is
pending, which only `uv_pipe_connect` would accept; nothing is written for an attempt that was made
from the callback of a failed one before that returns; an attempt does not fail while a write waits
that was accepted during an earlier attempt; and a stream is not closed while a request without a
callback is pending. -/
def Careful (s : ConnectStream) : Event → Prop
  | .connect _ _ _ => s.pipe = true → s.connectReq = none
  | .write2 _ _ =>
    match s.phase with
    | .connectCb _ error => 0 ≤ s.fd → error < 0 → s.connectReq = none
    | _ => True
  | .io error | .pending error => ∀ req ∈ s.connectReq,
      (if s.delayedError ≠ 0 then s.delayedError else error) < 0 →
        ∀ w ∈ s.writeQueue, w.attempt = none ∨ w.attempt = some req.id
  | .destroy => ∀ req ∈ s.connectReq, req.hasCb = true
  | _ => True

instance : DecidablePred s.Careful := fun e => by
  induction e using Event.casesOn <;> dsimp only [Careful]
  case write2 => split <;> infer_instance
  all_goals infer_instance

theorem Sound.of_reachable {pipe : Bool} {fd : ℤ}
    (h : Reachable (· = fresh pipe fd) (Guarded Careful Step) s) : Sound s := by
  apply h.invariant
  · rintro _ rfl
    constructor
    · exact fun i => (if_neg (Nat.not_lt_zero i)).symm
    · exact fun i hi => absurd hi (Nat.lt_irrefl 0)
    · exact fun r => nofun
    · exact fun c hc => absurd hc not_mem_nil
    · rfl
    · exact fun w hw => absurd hw not_mem_nil
    · exact fun _ _ => nofun
    · exact nofun
    · exact nofun
  · rintro s e t - hs ⟨hcareful, hst⟩
    obtain ⟨henabled, ht⟩ := Option.ite_none_right_eq_some.mp hst
    cases e with
    | connect hasCb sock errno =>
      obtain ⟨-, hopen, hsock⟩ := henabled
      cases ht
      split
      · next hpipe => exact hs.pipeConnect hopen (hcareful hpipe) hasCb hsock errno
      · exact hs.tcpConnect hopen hasCb sock errno
    | write2 emptyQueue result =>
      apply hs.write2 _ ht
      intro hfd id error hphase hneg
      rw [Careful, hphase] at hcareful
      exact hcareful hfd hneg
    | close =>
      cases ht
      exact hs.close
    | io error => exact hs.streamIo s.fed henabled.1 henabled.2.2 hcareful ht
    | pending error => exact hs.streamIo false henabled.1 henabled.2.2.2 hcareful ht
    | finish => exact hs.return_ ht
    | written result =>
      obtain ⟨u, hu, rfl⟩ := Option.map_eq_some_iff.mp ht
      apply (hs.write hu).writeCallbacks
      rw [phase_of_write hu, henabled.1]
      exact nofun
    | destroy =>
      cases ht
      exact hs.destroy henabled.1 henabled.2.1 hcareful

/-! ### Main result -/

/-- Every accepted request is either in `active_reqs` or completed, once; what is in `active_reqs`
is `connect_req`, whose watcher is in `pending_queue` if an error waits for it; every request is
completed with its own error, and its callback is called with that if it has one; and a write is
cancelled by the attempt that it waited for, or since the stream was closed. -/
structure Completes (s : ConnectStream) : Prop where
  once : ∀ i, i < s.accepted → s.active i + s.dones i = 1
  pending : ∀ i, 0 < s.active i → ∃ r, s.connectReq = some r ∧ r.id = i ∧
    (r.failed ≠ 0 → s.closing = false → s.fed = true)
  legit : ∀ c ∈ s.completed, c.Legit s.closing
  calls : s.calls = (s.completed.filter (·.req.hasCb)).map fun c => (c.req.id, c.error)
  cancelled : ∀ w ∈ s.cancelled, s.Justified w

/-- An attempt is refused later, and another one is made from its callback. -/
def twoAttempts : List Event :=
  [.connect true 5 115, .write2 true .done, .io (-111), .connect true 5 115, .finish,
    .finish, .io 0]

def twoAttemptsRun : Option ConnectStream :=
  twoAttempts.foldlM (fun s e => if s.Careful e then s.step e else none) (fresh false (-1))

theorem twoAttemptsRun_isSome : twoAttemptsRun.isSome = true := by
  rfl

/-- A write for the second attempt, which is made from the callback of the first, is cancelled when
that callback returns. -/
def flushedRun : Option ConnectStream :=
  [Event.connect true 5 111, .pending 0, .connect true 5 115, .write2 true .done, .finish].foldlM
    step (fresh false (-1))

theorem flushedRun_isSome : flushedRun.isSome = true := by
  rfl

/-- `uv_pipe_connect` is called twice in a row. -/
def overwrittenRun : Option ConnectStream :=
  [Event.connect true 5 115, .connect true 5 115].foldlM step (fresh true (-1))

theorem overwrittenRun_isSome : overwrittenRun.isSome = true := by
  rfl

def nullRun : Option ConnectStream :=
  [Event.connect false 5 115, .close, .destroy].foldlM step (fresh false (-1))

theorem nullRun_isSome : nullRun.isSome = true := by
  rfl

/-- A pipe is connected a second time while a write waits that was accepted during the first
attempt. -/
def reconnectedRun : Option ConnectStream :=
  [Event.connect true 5 115, .write2 true .done, .io 0, .finish, .connect true 5 106, .pending 0,
    .finish].foldlM step (fresh true (-1))

theorem reconnectedRun_isSome : reconnectedRun.isSome = true := by
  rfl

end ConnectStream

end LibuvWorks.Unix
