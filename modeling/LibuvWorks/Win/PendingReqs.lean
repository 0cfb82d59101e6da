import LibuvWorks.Lib.TailQueue
import LibuvWorks.Lib.Transition

/-!
# Pending requests of a Windows loop

Requests that are completed are linked to a ring that the loop knows by its last one.
`uv_process_reqs` detaches the ring and calls the handler of one request after the other. A handler
may insert requests and free or write over every one that is not queued, its own included. Each
step below is an insertion, a call of `uv_process_reqs` up to the first handler, the return of a
handler up to the next one, or a change of the memory of a request that is not queued.
-/

open List Option Function

namespace LibuvWorks.Win

open Transition

/-- `uv_req_type` -/
inductive ReqType where
  | unknownReq
  | req
  | connect
  | write
  | shutdown
  | udpSend
  | fs
  | work
  | getaddrinfo
  | getnameinfo
  | accept
  | fsEventReq
  | pollReq
  | processExit
  | read
  | udpRecv
  | wakeup
  | signalReq

inductive ReqHandle where
  | tcp
  | namedPipe
  | tty
  | other
  deriving DecidableEq

inductive StreamMethod where
  | read
  | write
  | accept
  | connect

inductive ReqProcess where
  | tcp (m : StreamMethod)
  | pipe (m : StreamMethod)
  | tty (m : StreamMethod)
  | pipeShutdown
  | udpRecv
  | udpSend
  | asyncWakeup
  | signal
  | poll
  | procExit
  | fsEvent

def delegateStreamReq (m : StreamMethod) : ReqHandle → Option ReqProcess
  | .tcp => some (.tcp m)
  | .namedPipe => some (.pipe m)
  | .tty => some (.tty m)
  | .other => none

/-- What the loop reads of a `uv_req_t`. -/
structure PendingReq (α : Type*) where
  type : ReqType
  handle : ReqHandle
  nextReq : Option α

/-- The function for a request; without one an assertion fails. -/
def PendingReq.process {α : Type*} (r : PendingReq α) : Option ReqProcess :=
  match r.type with
  | .read => delegateStreamReq .read r.handle
  | .write => delegateStreamReq .write r.handle
  | .accept => delegateStreamReq .accept r.handle
  | .connect => delegateStreamReq .connect r.handle
  | .shutdown => if r.handle = .namedPipe then some .pipeShutdown else none
  | .udpRecv => some .udpRecv
  | .udpSend => some .udpSend
  | .wakeup => some .asyncWakeup
  | .signalReq => some .signal
  | .pollReq => some .poll
  | .processExit => some .procExit
  | .fsEventReq => some .fsEvent
  | .unknownReq | .req | .fs | .work | .getaddrinfo | .getnameinfo => none

/-- The local variables of `uv_process_reqs` while a handler runs. -/
structure ReqWalk (α : Type*) where
  first : Option α
  next : Option α

/-- A request that is inserted or handed over, how many calls of `uv_process_reqs` have begun then,
and the function for it. -/
structure Passage (α : Type*) where
  req : α
  calls : ℕ
  process : Option ReqProcess

/-- The memory of the requests, where those that are freed have none, and the loop. The fields from
`calls` on are not read but to note what is done. -/
structure PendingReqs (α : Type*) where
  mem : α → Option (PendingReq α)
  pendingReqsTail : Option α
  walk : Option (ReqWalk α)
  calls : ℕ
  inserted : List (Passage α)
  handed : List (Passage α)

namespace PendingReqs

inductive Event (α : Type*) where
  | insert (r : α)
  | processReqs
  | returned
  | store (r : α) (cell : Option (PendingReq α))

variable {α : Type*} [DecidableEq α] (s : PendingReqs α)

/-- `next_req` of a request is written. -/
def relink (mem : α → Option (PendingReq α)) (r : α) (next : Option α) :
    α → Option (PendingReq α) :=
  Function.update mem r ((mem r).map fun cell => { cell with nextReq := next })

def setNextReq (r : α) (next : Option α) : Option (PendingReqs α) :=
  if (s.mem r).isSome then some { s with mem := relink s.mem r next } else none

/-- The request is the last one now. -/
def setTail (r : α) : PendingReqs α :=
  { s with
    pendingReqsTail := some r
    inserted := s.inserted ++ [⟨r, s.calls, (s.mem r).bind PendingReq.process⟩] }

/-- A debug build also checks that the request is not in the ring. -/
def uvInsertPendingReq (r : α) : Option (PendingReqs α) := do
  let s ← s.setNextReq r none
  match s.pendingReqsTail with
  | some tail =>
    let cell ← s.mem tail
    let s ← s.setNextReq r cell.nextReq
    let s ← s.setNextReq tail (some r)
    some (s.setTail r)
  | none =>
    let s ← s.setNextReq r (some r)
    some (s.setTail r)

/-- The loop of `uv_process_reqs`, up to the next handler. -/
def processNext (first next : Option α) : Option (PendingReqs α) :=
  match next with
  | none => some { s with walk := none }
  | some req => (s.mem req).bind fun cell =>
    if cell.process = none then none
    else
      some { s with
        walk := some ⟨first, if cell.nextReq ≠ first then cell.nextReq else none⟩
        handed := s.handed ++ [⟨req, s.calls, cell.process⟩] }

def uvProcessReqs : Option (PendingReqs α) :=
  let s : PendingReqs α := { s with calls := s.calls + 1 }
  match s.pendingReqsTail with
  | none => some s
  | some tail => (s.mem tail).bind fun cell =>
    { s with pendingReqsTail := none }.processNext cell.nextReq cell.nextReq

def next : Event α → Option (PendingReqs α)
  | .insert r => s.uvInsertPendingReq r
  | .processReqs => s.uvProcessReqs
  | .returned => s.walk.bind fun w => s.processNext w.first w.next
  | .store r cell => some { s with mem := Function.update s.mem r cell }

def waiting : List α := (s.inserted.drop s.handed.length).map Passage.req

/-- A request is inserted only while it is not queued, and one that there is a function for.
Handlers do not process requests themselves. -/
def Enabled : Event α → Prop
  | .insert r => r ∉ s.waiting ∧ ((s.mem r).bind PendingReq.process).isSome = true
  | .processReqs => s.walk = none
  | .returned => s.walk ≠ none
  | .store r _ => r ∉ s.waiting

instance : DecidablePred s.Enabled := fun e => by
  cases e <;> unfold Enabled <;> infer_instance

def step (e : Event α) : Option (PendingReqs α) := if s.Enabled e then s.next e else none

def init (mem : α → Option (PendingReq α)) : PendingReqs α where
  mem := mem
  pendingReqsTail := none
  walk := none
  calls := 0
  inserted := []
  handed := []

abbrev Step (s : PendingReqs α) (e : Event α) (t : PendingReqs α) : Prop := s.step e = some t

def queue : TailQueue α := ⟨fun r => (s.mem r).bind PendingReq.nextReq, s.pendingReqsTail⟩

end PendingReqs

end LibuvWorks.Win

/-!
## The ring that is walked and the ring that grows

While handlers run, the requests that wait are in two parts: those that the walk still comes to,
which nothing links any more but each other, and the ring of those inserted since.
-/

namespace LibuvWorks.Win

open Transition

namespace PendingReqs

variable {α : Type*} [DecidableEq α] {s t : PendingReqs α} {r : α} {first cur : Option α}
  {done rest ring : List (Passage α)}

/-! ## Memory -/

theorem relink_nextReq {mem : α → Option (PendingReq α)} (hr : (mem r).isSome = true) :
    (fun x => (relink mem r cur x).bind PendingReq.nextReq) =
      Function.update (fun x => (mem x).bind PendingReq.nextReq) r cur := by
  obtain ⟨cell, hcell⟩ := isSome_iff_exists.mp hr
  funext x
  by_cases hx : x = r
  · subst hx
    simp [relink, hcell]
  · simp [relink, update_of_ne hx]

@[simp] theorem relink_process (mem : α → Option (PendingReq α)) (r : α) (cur : Option α) (x : α) :
    (relink mem r cur x).bind PendingReq.process = (mem x).bind PendingReq.process := by
  by_cases hx : x = r
  · subst hx
    cases hcell : mem x with
    | none => simp [relink, hcell]
    | some cell =>
      simp only [relink, update_self, hcell, map_some, bind_some]
      rfl
  · rw [relink, update_of_ne hx]

@[simp] theorem relink_isSome (mem : α → Option (PendingReq α)) (r : α) (cur : Option α) (x : α) :
    (relink mem r cur x).isSome = (mem x).isSome := by
  by_cases hx : x = r
  · subst hx
    simp [relink]
  · rw [relink, update_of_ne hx]

structure Inserted (s : PendingReqs α) (r : α) (t : PendingReqs α) : Prop where
  queue : t.queue = s.queue.insert r
  process : ∀ x, (t.mem x).bind PendingReq.process = (s.mem x).bind PendingReq.process
  walk : t.walk = s.walk
  calls : t.calls = s.calls
  inserted : t.inserted = s.inserted ++ [⟨r, s.calls, (s.mem r).bind PendingReq.process⟩]
  handed : t.handed = s.handed

theorem inserted_uvInsertPendingReq (hr : (s.mem r).isSome = true)
    (htail : ∀ x, s.pendingReqsTail = some x → (s.mem x).isSome = true ∧ x ≠ r) :
    ∃ t, s.uvInsertPendingReq r = some t ∧ Inserted s r t := by
  have hnull : ((relink s.mem r none) r).isSome = true := by rw [relink_isSome, hr]
  cases h : s.pendingReqsTail with
  | none =>
    have hstep : s.uvInsertPendingReq r =
        some (setTail { s with mem := relink (relink s.mem r none) r (some r) } r) := by
      simp [uvInsertPendingReq, setNextReq, hr, h]
    refine ⟨_, hstep, ?_, fun x => ?_, rfl, rfl, ?_, rfl⟩
    · simp only [PendingReqs.queue, setTail, TailQueue.insert, h]
      rw [relink_nextReq hnull, relink_nextReq hr, update_idem]
    · simp only [setTail, relink_process]
    · simp only [setTail, relink_process]
  | some x =>
    obtain ⟨hx, hne⟩ := htail x h
    obtain ⟨cell, hcell⟩ := isSome_iff_exists.mp hx
    have hread : relink s.mem r none x = some cell := by
      rw [relink, update_of_ne hne, hcell]
    have hlast : ((relink (relink s.mem r none) r cell.nextReq) x).isSome = true := by
      rw [relink_isSome, relink_isSome, hx]
    have hstep : s.uvInsertPendingReq r = some (setTail { s with
        mem := relink (relink (relink s.mem r none) r cell.nextReq) x (some r) } r) := by
      simp [uvInsertPendingReq, setNextReq, hr, h, hread, hx]
    refine ⟨_, hstep, ?_, fun x => ?_, rfl, rfl, ?_, rfl⟩
    · simp only [PendingReqs.queue, setTail, TailQueue.insert, h]
      rw [relink_nextReq hlast, relink_nextReq hnull, relink_nextReq hr, update_idem,
        hcell]
      rfl
    · simp only [setTail, relink_process]
    · simp only [setTail, relink_process]

/-! ## The two parts -/

def Ready (s : PendingReqs α) (x : Passage α) : Prop :=
  (s.mem x.req).bind PendingReq.process = x.process ∧ x.process ≠ none

/-- A request was handed over to its function, by a later call than its insertion. -/
def Passed (x y : Passage α) : Prop := x.req = y.req ∧ x.process = y.process ∧ x.calls < y.calls

/-- The insertions are those `done` with, those that a walk comes to from `cur` on, and those in
the ring. -/
structure Parts (s : PendingReqs α) (first cur : Option α)
    (done rest ring : List (Passage α)) : Prop where
  inserted : s.inserted = done ++ (rest ++ ring)
  handed : List.Forall₂ Passed done s.handed
  nodup : ((rest ++ ring).map Passage.req).Nodup
  queue : s.queue.Holds (ring.map Passage.req)
  leads : LinkedStack.Leads (TailQueue.follow s.queue.next first) cur (rest.map Passage.req)
  ready : ∀ x ∈ rest ++ ring, s.Ready x
  restCalls : ∀ x ∈ rest, x.calls < s.calls
  ringCalls : ∀ x ∈ ring, x.calls = s.calls

/-- Where the loop of `uv_process_reqs` is, if it runs. -/
inductive At (walk : Option (ReqWalk α)) : Option α → Option α → Prop
  | none (first : Option α) : walk = none → At walk first none
  | some (first cur : Option α) : walk = some ⟨first, cur⟩ → At walk first cur

def Sound (s : PendingReqs α) : Prop :=
  ∃ first cur done rest ring, At s.walk first cur ∧ Parts s first cur done rest ring

theorem Parts.waiting_eq (h : Parts s first cur done rest ring) :
    s.waiting = (rest ++ ring).map Passage.req := by
  rw [waiting, h.inserted, ← h.handed.length_eq, drop_left]

omit [DecidableEq α] in
theorem Ready.isSome {x : Passage α} (h : s.Ready x) : (s.mem x.req).isSome = true := by
  obtain ⟨hprocess, hne⟩ := h
  cases hmem : s.mem x.req with
  | none =>
    rw [hmem] at hprocess
    exact absurd hprocess.symm hne
  | some cell => rfl

theorem Parts.tail_mem (h : Parts s first cur done rest ring) {x : α}
    (hx : s.pendingReqsTail = some x) : x ∈ ring.map Passage.req :=
  List.mem_of_getLast? (h.queue.tail.symm.trans hx)

theorem Parts.insert (h : Parts s first cur done rest ring) (hr : r ∉ s.waiting)
    (hprocess : ((s.mem r).bind PendingReq.process).isSome = true) (ht : Inserted s r t) :
    Parts t first cur done rest
      (ring ++ [⟨r, s.calls, (s.mem r).bind PendingReq.process⟩]) := by
  rw [h.waiting_eq, map_append, mem_append, not_or] at hr
  constructor
  · rw [ht.inserted, h.inserted, append_assoc, append_assoc]
  · rw [ht.handed]
    exact h.handed
  · rw [← append_assoc, map_append, nodup_append]
    refine ⟨h.nodup, nodup_singleton r, ?_⟩
    rintro x hx y hy rfl
    rw [map_append, mem_append] at hx
    cases mem_singleton.mp hy
    exact hx.elim hr.1 hr.2
  · rw [ht.queue, map_append]
    exact h.queue.insert hr.2
  · rw [ht.queue]
    apply h.leads.congr
    intro x hx
    have hxr : x ≠ r := ne_of_mem_of_not_mem hx hr.1
    have hxt : s.queue.tail ≠ some x := by
      intro habs
      have hnodup := h.nodup
      rw [map_append, nodup_append] at hnodup
      exact hnodup.2.2 x hx x (h.tail_mem habs) rfl
    rw [TailQueue.follow, TailQueue.follow, TailQueue.insert_next_of_ne hxr hxt]
  · intro x hx
    rw [← append_assoc, mem_append] at hx
    rcases hx with hx | hx
    · obtain ⟨hx, hne⟩ := h.ready x hx
      exact ⟨(ht.process x.req).trans hx, hne⟩
    · rw [mem_singleton.mp hx]
      exact ⟨ht.process r, isSome_iff_ne_none.mp hprocess⟩
  · rw [ht.calls]
    exact h.restCalls
  · intro x hx
    rw [ht.calls]
    rcases mem_append.mp hx with hx | hx
    · exact h.ringCalls x hx
    · rw [mem_singleton.mp hx]

theorem Sound.uvInsertPendingReq (hs : Sound s) (hr : r ∉ s.waiting)
    (hprocess : ((s.mem r).bind PendingReq.process).isSome = true) :
    ∃ t, s.uvInsertPendingReq r = some t ∧ Sound t := by
  obtain ⟨first, cur, done, rest, ring, hat, h⟩ := hs
  have hsome : (s.mem r).isSome = true := by
    cases hmem : s.mem r with
    | none => simp [hmem] at hprocess
    | some cell => rfl
  obtain ⟨t, ht, hins⟩ := inserted_uvInsertPendingReq hsome fun x hx => by
    obtain ⟨p, hp, rfl⟩ := mem_map.mp (h.tail_mem hx)
    refine ⟨(h.ready p (mem_append_right rest hp)).isSome, ?_⟩
    rintro rfl
    rw [h.waiting_eq] at hr
    exact hr (mem_map_of_mem (mem_append_right rest hp))
  refine ⟨t, ht, first, cur, done, rest, _, ?_, h.insert hr hprocess hins⟩
  rw [hins.walk]
  exact hat

/-! ## The walk -/

theorem Parts.processNext (h : Parts s first cur done rest ring) :
    ∃ t, s.processNext first cur = some t ∧ Sound t := by
  unfold PendingReqs.processNext
  cases rest with
  | nil =>
    cases h.leads
    exact ⟨_, rfl, first, none, done, [], ring, .none first rfl, h.inserted, h.handed, h.nodup,
      h.queue, h.leads, h.ready, h.restCalls, h.ringCalls⟩
  | cons x rest =>
    obtain ⟨hprocess, hne⟩ := h.ready x mem_cons_self
    obtain ⟨cell, hcell⟩ := isSome_iff_exists.mp (Ready.isSome ⟨hprocess, hne⟩)
    rw [hcell, bind_some] at hprocess
    have hstep := h.leads
    cases hstep with
    | cons hleads =>
      have hfollow : TailQueue.follow s.queue.next first x.req =
          if cell.nextReq ≠ first then cell.nextReq else none := by
        simp [TailQueue.follow, PendingReqs.queue, hcell]
      simp only [hcell, bind_some]
      rw [if_neg (by rw [hprocess]; exact hne)]
      refine ⟨_, rfl, first, _, done ++ [x], rest, ring, .some first _ rfl, ?_⟩
      constructor
      · rw [h.inserted]
        simp
      · apply rel_append h.handed
        exact .cons ⟨rfl, hprocess.symm, h.restCalls x mem_cons_self⟩ .nil
      · exact (nodup_cons.mp h.nodup).2
      · exact h.queue
      · rw [← hfollow]
        exact hleads
      · exact fun y hy => h.ready y (mem_cons_of_mem _ hy)
      · exact fun y hy => h.restCalls y (mem_cons_of_mem _ hy)
      · exact h.ringCalls

theorem Sound.uvProcessReqs (hs : Sound s) (hwalk : s.walk = none) :
    ∃ t, s.uvProcessReqs = some t ∧ Sound t := by
  obtain ⟨first, cur, done, rest, ring, hat, h⟩ := hs
  obtain rfl : cur = none := by
    cases hat with
    | none => rfl
    | some _ hsome => exact absurd (hwalk.symm.trans hsome) nofun
  have hrest : rest = [] := map_eq_nil_iff.mp (LinkedStack.leads_none.mp h.leads)
  subst hrest
  unfold PendingReqs.uvProcessReqs
  cases htail : s.pendingReqsTail with
  | none =>
    have hqueue := h.queue
    rw [PendingReqs.queue, htail] at hqueue
    have hring : ring = [] := map_eq_nil_iff.mp (h.queue.tail_eq_none.mp htail)
    subst hring
    exact ⟨_, rfl, first, none, done, [], [], .none first hwalk, h.inserted, h.handed, h.nodup,
      hqueue, h.leads, h.ready, nofun, nofun⟩
  | some x =>
    obtain ⟨p, hp, rfl⟩ := mem_map.mp (h.tail_mem htail)
    obtain ⟨cell, hcell⟩ := isSome_iff_exists.mp (h.ready p hp).isSome
    have hnext : s.queue.next p.req = cell.nextReq := by simp [PendingReqs.queue, hcell]
    have hleads := h.queue.leads htail
    rw [hnext] at hleads
    simp only [hcell, bind_some]
    refine Parts.processNext (?_ : Parts _ _ _ done ring [])
    constructor
    · rw [append_nil]
      exact h.inserted
    · exact h.handed
    · rw [append_nil]
      exact h.nodup
    · exact .nil rfl
    · exact hleads
    · rw [append_nil]
      exact h.ready
    · exact fun y hy => Nat.lt_succ_of_le (Nat.le_of_eq (h.ringCalls y hy))
    · exact nofun

theorem Sound.store (hs : Sound s) (hr : r ∉ s.waiting) (cell : Option (PendingReq α)) :
    Sound { s with mem := Function.update s.mem r cell } := by
  obtain ⟨first, cur, done, rest, ring, hat, h⟩ := hs
  rw [h.waiting_eq] at hr
  refine ⟨first, cur, done, rest, ring, hat, ?_⟩
  have hsame : ∀ x ∈ (rest ++ ring).map Passage.req, Function.update s.mem r cell x = s.mem x :=
    fun x hx => update_of_ne (ne_of_mem_of_not_mem hx hr) ..
  rw [map_append] at hsame
  have hlink : ∀ x ∈ rest.map Passage.req ++ ring.map Passage.req,
      (Function.update s.mem r cell x).bind PendingReq.nextReq = s.queue.next x :=
    fun x hx => congrArg (·.bind PendingReq.nextReq) (hsame x hx)
  exact { h with
    queue := by
      apply TailQueue.Holds.congr h.queue
      · rfl
      · exact fun x hx => hlink x (mem_append_right _ hx)
    leads := by
      apply h.leads.congr
      intro x hx
      change (if (Function.update s.mem r cell x).bind PendingReq.nextReq ≠ first then
        (Function.update s.mem r cell x).bind PendingReq.nextReq else none) = _
      rw [hlink x (mem_append_left _ hx)]
      rfl
    ready := by
      intro x hx
      have hx' := hsame x.req (by rw [← map_append]; exact mem_map_of_mem hx)
      have hready := h.ready x hx
      rw [Ready, ← hx'] at hready
      exact hready }

theorem sound_init (mem : α → Option (PendingReq α)) : Sound (init mem) := by
  refine ⟨none, none, [], [], [], .none none rfl, ?_⟩
  exact ⟨rfl, .nil, nodup_nil, .nil rfl, .nil, nofun, nofun, nofun⟩

theorem Sound.next (hs : Sound s) {e : Event α} (he : s.Enabled e) :
    ∃ t, s.next e = some t ∧ Sound t := by
  cases e with
  | insert r => exact hs.uvInsertPendingReq he.1 he.2
  | processReqs => exact hs.uvProcessReqs he
  | returned =>
    obtain ⟨first, cur, done, rest, ring, hat, h⟩ := hs
    cases hat with
    | none hnone => exact absurd hnone he
    | some _ hsome =>
      change ∃ t, s.walk.bind (fun w => s.processNext w.first w.next) = some t ∧ Sound t
      rw [hsome]
      exact h.processNext
  | store r cell => exact ⟨_, rfl, hs.store he cell⟩

theorem Sound.of_reachable (h : Reachable (fun s => ∃ mem, s = init mem) Step s) : Sound s := by
  apply h.invariant_of_next
  · rintro _ ⟨mem, rfl⟩
    exact sound_init mem
  · exact fun s e hs he => hs.next he

/-! ## Whole runs -/

/-- No step reads a request that was freed, or asserts. Requests are handed to their functions in
the order of their insertions, by later calls of `uv_process_reqs`; when such a call is over, those
are left that were inserted since it began. The requests that wait are in a ring, but for those that
were in the ring that is walked. -/
structure Fifo (s : PendingReqs α) : Prop where
  possible : ∀ e, s.Enabled e → (s.next e).isSome = true
  handed : List.Forall₂ Passed (s.inserted.take s.handed.length) s.handed
  settled : s.walk = none → ∀ x ∈ s.inserted.drop s.handed.length, x.calls = s.calls
  waiting : ∃ rest ring, s.waiting = rest ++ ring ∧ s.queue.Holds ring ∧
    (s.walk = none → rest = [])

theorem uvPendingReqs_fifo (h : Reachable (fun s => ∃ mem, s = init mem) Step s) : s.Fifo := by
  have hs := Sound.of_reachable h
  obtain ⟨first, cur, done, rest, ring, hat, hparts⟩ := hs
  have hrest : s.walk = none → rest = [] := by
    intro hwalk
    cases hat with
    | none _ => exact List.map_eq_nil_iff.mp (LinkedStack.leads_none.mp hparts.leads)
    | some _ hsome => exact absurd (hwalk.symm.trans hsome) nofun
  have hlength := hparts.handed.length_eq
  refine ⟨fun e he => ?_, ?_, fun hwalk x hx => ?_, rest.map Passage.req, ring.map Passage.req, ?_,
    hparts.queue, fun hwalk => ?_⟩
  · obtain ⟨t, ht, -⟩ := Sound.next ⟨first, cur, done, rest, ring, hat, hparts⟩ he
    rw [ht]
    rfl
  · rw [hparts.inserted, ← hlength, List.take_left]
    exact hparts.handed
  · rw [hparts.inserted, ← hlength, List.drop_left, hrest hwalk] at hx
    exact hparts.ringCalls x hx
  · rw [hparts.waiting_eq, List.map_append]
  · rw [hrest hwalk]
    rfl

/-- The handler of the first of two requests frees it, and inserts another request at the same
place. -/
def reuseRun : Option (PendingReqs ℕ) :=
  [Event.insert 0, .insert 1, .processReqs, .store 0 none, .store 0 (some ⟨.wakeup, .other, none⟩),
    .insert 0, .returned, .returned, .processReqs].foldlM step (init fun _ =>
      some ⟨.read, .tcp, none⟩)

theorem reuseRun_isSome : reuseRun.isSome = true := by
  rfl

theorem uvPendingReqs_fifo_reuse :
    List.Forall₂ Passed ((reuseRun.get reuseRun_isSome).inserted.take
      (reuseRun.get reuseRun_isSome).handed.length) (reuseRun.get reuseRun_isSome).handed := by
  have hrun : Reachable (fun s => ∃ mem, s = init mem) Step (reuseRun.get reuseRun_isSome) :=
    .of_foldlM (.init ⟨_, rfl⟩) (Option.some_get reuseRun_isSome).symm
  exact (uvPendingReqs_fifo hrun).handed

end PendingReqs

end LibuvWorks.Win
