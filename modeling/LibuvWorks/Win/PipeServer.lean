import LibuvWorks.Lib.LinkedStack
import LibuvWorks.Lib.Transition
import Mathlib.Data.List.FinRange

/-!
# Windows pipe servers

A listening pipe has a fixed number of accept requests, which wait for a connection in the kernel,
for the loop, or on a linked stack for `uv_accept`. `uv_pipe_listen` queues all of them, also if
the pipe listens already: the `if` at its head lacks a `return`.
-/
namespace LibuvWorks.Win

open List Function
open Function (update update_eq_self update_of_ne update_self)
open Transition LinkedStack

/-- `uv_pipe_accept_t`; a null `pipeHandle` is `INVALID_HANDLE_VALUE`. -/
structure PipeAcceptReq (n : ℕ) where
  pipeHandle : Option ℕ
  nextPending : Option (Fin (n + 1))

/-- What `ConnectNamedPipe` does. -/
inductive ConnectResult where
  | pending : ConnectResult
  | connected : ConnectResult
  | fails : ConnectResult

/-- The results of `CreateNamedPipeW`, `uv_set_pipe_handle` and `ConnectNamedPipe` when a request
is queued. -/
structure AcceptCalls where
  created : Option ℕ
  associated : Bool
  connect : ConnectResult

/-- A bound pipe server with `n + 1` accept requests. `kernel` are the requests that wait in the
kernel, `queued` those that wait for the loop, with their success, and `callback` says that the
connection callback runs. -/
structure PipeServer (n : ℕ) (κ : Type*) where
  req : Fin (n + 1) → PipeAcceptReq n
  pendingAccepts : Option (Fin (n + 1))
  connectionCb : Bool
  listening : Bool
  closing : Bool
  closed : Bool
  reqsPending : ℕ
  activecnt : ℤ
  kernel : List (Fin (n + 1))
  queued : List (Fin (n + 1) × Bool)
  callback : Bool
  accepted : List (κ × Option ℕ)

namespace PipeServer

variable {n : ℕ} {κ : Type*} {s t : PipeServer n κ} {i : Fin (n + 1)} {ws ws' : List (Fin (n + 1))}

/-! ### The code -/

def setReq (s : PipeServer n κ) (i : Fin (n + 1)) (r : PipeAcceptReq n) : PipeServer n κ :=
  { s with req := update s.req i r }

def setPipeHandle (s : PipeServer n κ) (i : Fin (n + 1)) (pipeHandle : Option ℕ) :
    PipeServer n κ :=
  s.setReq i { s.req i with pipeHandle }

/-- `uv_insert_pending_req` with the status of the request. -/
def uvInsertPendingReq (s : PipeServer n κ) (i : Fin (n + 1)) (success : Bool) : PipeServer n κ :=
  { s with queued := s.queued ++ [(i, success)], reqsPending := s.reqsPending + 1 }

/-- The end of `uv_pipe_queue_accept`, from `ConnectNamedPipe` on. -/
def connectNamedPipe (s : PipeServer n κ) (i : Fin (n + 1)) (result : ConnectResult) :
    PipeServer n κ :=
  match result with
  | .pending => { s with kernel := s.kernel ++ [i], reqsPending := s.reqsPending + 1 }
  | .connected => s.uvInsertPendingReq i true
  | .fails => (s.setPipeHandle i none).uvInsertPendingReq i false

/-- `uv_pipe_queue_accept`; none if an assertion fails. -/
def uvPipeQueueAccept (s : PipeServer n κ) (i : Fin (n + 1)) (firstInstance : Bool)
    (calls : AcceptCalls) : Option (PipeServer n κ) :=
  if s.listening = false then none
  else if firstInstance then
    if (s.req i).pipeHandle = none then none else some (s.connectNamedPipe i calls.connect)
  else if (s.req i).pipeHandle ≠ none then none
  else
    match calls.created with
    | none => some (s.uvInsertPendingReq i false)
    | some pipeHandle =>
      if calls.associated then
        some ((s.setPipeHandle i (some pipeHandle)).connectNamedPipe i calls.connect)
      else some (s.uvInsertPendingReq i false)

def uvPipeListen (s : PipeServer n κ) (cb : Bool) (calls : Fin (n + 1) → AcceptCalls) :
    Option (PipeServer n κ) :=
  -- that the pipe listens already makes no difference
  let s := { s with listening := true, activecnt := s.activecnt + 1, connectionCb := cb }
  if (s.req 0).pipeHandle = none then none
  else (List.finRange (n + 1)).foldlM (fun s i => s.uvPipeQueueAccept i (i = 0) (calls i)) s

/-- `uv_pipe_accept`, with its result. -/
def uvPipeAccept (s : PipeServer n κ) (client : κ) (calls : AcceptCalls) :
    Option (PipeServer n κ × Bool) :=
  match s.pendingAccepts with
  | none => some (s, false)
  | some i =>
    let s := { s.setReq i ⟨none, none⟩ with
      accepted := s.accepted ++ [(client, (s.req i).pipeHandle)]
      pendingAccepts := (s.req i).nextPending }
    (if s.closing then some s else s.uvPipeQueueAccept i false calls).map fun s => (s, true)

/-- `DECREASE_PENDING_REQ_COUNT`; none if the assertion fails. -/
def decreasePendingReqCount (s : PipeServer n κ) : Option (PipeServer n κ) :=
  if s.reqsPending = 0 then none else some { s with reqsPending := s.reqsPending - 1 }

/-- `uv_process_pipe_accept_req`, until the callback if it is called. -/
def uvProcessPipeAcceptReq (s : PipeServer n κ) (i : Fin (n + 1)) (success : Bool)
    (calls : AcceptCalls) : Option (PipeServer n κ) :=
  let s := { s with queued := s.queued.erase (i, success) }
  if s.closing then
    if (s.req i).pipeHandle ≠ none then none else s.decreasePendingReqCount
  else if success then
    if (s.req i).pipeHandle = none then none
    else
      let s := { s.setReq i { s.req i with nextPending := s.pendingAccepts } with
        pendingAccepts := some i }
      if s.connectionCb then some { s with callback := true } else s.decreasePendingReqCount
  else
    ((s.setPipeHandle i none).uvPipeQueueAccept i false calls).bind decreasePendingReqCount

/-- `uv_pipe_close` with `uv_pipe_cleanup`; none if an assertion fails. -/
def uvPipeClose (s : PipeServer n κ) : Option (PipeServer n κ) :=
  let activecnt := if s.listening then s.activecnt - 1 else s.activecnt
  if activecnt < 0 then none
  else
    some { s with
      listening := false, activecnt, closing := true
      req := fun i => { s.req i with pipeHandle := none } }

/-- The user listens, accepts or closes, the kernel completes a request, the loop processes one,
the callback returns, or the endgame runs. -/
inductive Event (n : ℕ) (κ : Type*) where
  | listen (cb : Bool) (calls : Fin (n + 1) → AcceptCalls) : Event n κ
  | accept (client : κ) (calls : AcceptCalls) : Event n κ
  | close : Event n κ
  | completed (i : Fin (n + 1)) (success : Bool) : Event n κ
  | process (i : Fin (n + 1)) (success : Bool) (calls : AcceptCalls) : Event n κ
  | returned : Event n κ
  | endgame : Event n κ

/-- The events that can happen. -/
def Enabled (s : PipeServer n κ) : Event n κ → Prop
  | .listen _ _ => s.closing = false
  | .accept _ _ => s.closed = false
  | .close => s.closing = false
  | .completed i _ => i ∈ s.kernel
  | .process i success _ => (i, success) ∈ s.queued ∧ s.callback = false
  | .returned => s.callback = true
  | .endgame => s.closing = true ∧ s.closed = false ∧ s.reqsPending = 0 ∧ s.callback = false

instance (s : PipeServer n κ) : ∀ e : Event n κ, Decidable (Enabled s e)
  | .listen _ _ => inferInstanceAs (Decidable (_ = _))
  | .accept _ _ => inferInstanceAs (Decidable (_ = _))
  | .close => inferInstanceAs (Decidable (_ = _))
  | .completed i _ => inferInstanceAs (Decidable (i ∈ s.kernel))
  | .process i success _ => inferInstanceAs (Decidable ((i, success) ∈ s.queued ∧ _ = _))
  | .returned => inferInstanceAs (Decidable (_ = _))
  | .endgame => inferInstanceAs (Decidable (_ = _ ∧ _ = _ ∧ _ = _ ∧ _ = _))

def next (s : PipeServer n κ) : Event n κ → Option (PipeServer n κ)
  | .listen cb calls => s.uvPipeListen cb calls
  | .accept client calls => (s.uvPipeAccept client calls).map Prod.fst
  | .close => s.uvPipeClose
  | .completed i success =>
    some { s with kernel := s.kernel.erase i, queued := s.queued ++ [(i, success)] }
  | .process i success calls => s.uvProcessPipeAcceptReq i success calls
  | .returned => { s with callback := false }.decreasePendingReqCount
  | .endgame => some { s with closed := true }

def step (s : PipeServer n κ) (e : Event n κ) : Option (PipeServer n κ) :=
  if Enabled s e then s.next e else none

def Step (s : PipeServer n κ) (e : Event n κ) (t : PipeServer n κ) : Prop := s.step e = some t

/-- A pipe that has been bound: only the first request has a pipe. -/
structure Init (s : PipeServer n κ) : Prop where
  first : (s.req 0).pipeHandle ≠ none
  others : ∀ i, i ≠ 0 → (s.req i).pipeHandle = none
  pendingAccepts : s.pendingAccepts = none
  listening : s.listening = false
  closing : s.closing = false
  closed : s.closed = false
  reqsPending : s.reqsPending = 0
  activecnt : s.activecnt = 0
  kernel : s.kernel = []
  queued : s.queued = []
  callback : s.callback = false

def Careful (s : PipeServer n κ) : Event n κ → Prop
  | .listen _ _ => s.listening = false
  | _ => True

/-! ### Queueing a request -/

def outstanding (s : PipeServer n κ) : List (Fin (n + 1)) := s.kernel ++ s.queued.map Prod.fst

def links (s : PipeServer n κ) : Fin (n + 1) → Option (Fin (n + 1)) :=
  PipeAcceptReq.nextPending ∘ s.req

theorem links_update (s : PipeServer n κ) (i : Fin (n + 1)) (r : PipeAcceptReq n) :
    PipeAcceptReq.nextPending ∘ update s.req i r =
      update s.links i r.nextPending :=
  comp_update ..

/-- A request is queued with the pipe `h`: in the kernel, or with its success for the loop. -/
def queueWith (s : PipeServer n κ) (i : Fin (n + 1)) (h : Option ℕ) (answer : Option Bool) :
    PipeServer n κ :=
  { s with
    req := update s.req i ⟨h, (s.req i).nextPending⟩
    kernel := if answer = none then s.kernel ++ [i] else s.kernel
    queued := s.queued ++ answer.toList.map (i, ·)
    reqsPending := s.reqsPending + 1 }

theorem connectNamedPipe_eq (s : PipeServer n κ) (i : Fin (n + 1)) (result : ConnectResult)
    (hpipe : (s.req i).pipeHandle ≠ none) :
    ∃ h answer, s.connectNamedPipe i result = s.queueWith i h answer ∧
      (answer ≠ some false → h ≠ none) := by
  cases result with
  | pending =>
    refine ⟨(s.req i).pipeHandle, none, ?_, fun _ => hpipe⟩
    simp [connectNamedPipe, queueWith]
  | connected =>
    refine ⟨(s.req i).pipeHandle, some true, ?_, fun _ => hpipe⟩
    simp [connectNamedPipe, queueWith, uvInsertPendingReq]
  | fails => exact ⟨none, some false, rfl, fun h => absurd rfl h⟩

/-- What a request that is queued waits for; no assertion fails if it has a pipe exactly if it is
the first instance. -/
theorem uvPipeQueueAccept_eq (hlistening : s.listening = true) {firstInstance : Bool}
    (hpipe : firstInstance = true ↔ (s.req i).pipeHandle ≠ none) (calls : AcceptCalls) :
    ∃ h answer, s.uvPipeQueueAccept i firstInstance calls = some (s.queueWith i h answer) ∧
      (answer ≠ some false → h ≠ none) := by
  rw [uvPipeQueueAccept, if_neg (by simp [hlistening])]
  cases firstInstance with
  | true =>
    have hsome := hpipe.mp rfl
    obtain ⟨h, answer, heq, hheld⟩ := s.connectNamedPipe_eq i calls.connect hsome
    exact ⟨h, answer, by rw [if_pos rfl, if_neg hsome, heq], hheld⟩
  | false =>
    have hnone : (s.req i).pipeHandle = none := by
      by_contra hne
      cases hpipe.mpr hne
    have hfails : s.uvInsertPendingReq i false = s.queueWith i none (some false) := by
      have hself : update s.req i ⟨none, (s.req i).nextPending⟩ = s.req := by
        rw [← hnone]
        exact update_eq_self i s.req
      simp [uvInsertPendingReq, queueWith, hself]
    rw [if_neg Bool.false_ne_true, if_neg (not_not.mpr hnone)]
    cases hcreated : calls.created with
    | none => exact ⟨none, some false, congrArg some hfails, fun h => absurd rfl h⟩
    | some pipeHandle =>
      cases hassociated : calls.associated with
      | false => exact ⟨none, some false, congrArg some hfails, fun h => absurd rfl h⟩
      | true =>
        obtain ⟨h, answer, heq, hheld⟩ := (s.setPipeHandle i (some pipeHandle)).connectNamedPipe_eq
          i calls.connect (by simp [setPipeHandle, setReq])
        refine ⟨h, answer, ?_, hheld⟩
        dsimp only
        rw [if_pos rfl, heq]
        simp [queueWith, setPipeHandle, setReq]

/-! ### The circulation of the requests -/

/-- The stack of waiting connections is `ws`, request `i` is `m i` times outstanding or waiting,
those that can be used have a pipe, and what is outstanding is counted, beside `extra` others. -/
structure Circulates (s : PipeServer n κ) (ws : List (Fin (n + 1))) (m : Fin (n + 1) → ℕ)
    (extra : ℕ) : Prop where
  leads : Leads s.links s.pendingAccepts ws
  count : ∀ i, s.outstanding.count i + ws.count i = m i
  kernel : s.closing = false → ∀ i ∈ s.kernel, (s.req i).pipeHandle ≠ none
  queued : s.closing = false → ∀ i, (i, true) ∈ s.queued → (s.req i).pipeHandle ≠ none
  waiting : s.closing = false → ∀ i ∈ ws, (s.req i).pipeHandle ≠ none
  reqsPending : s.reqsPending = s.outstanding.length + extra

theorem outstanding_queueWith (s : PipeServer n κ) (i : Fin (n + 1)) (h : Option ℕ)
    (answer : Option Bool) : (s.queueWith i h answer).outstanding.Perm (i :: s.outstanding) := by
  cases answer with
  | none =>
    have hmiddle : (s.queueWith i h none).outstanding =
        s.kernel ++ i :: s.queued.map Prod.fst := by simp [outstanding, queueWith]
    rw [hmiddle]
    exact perm_middle
  | some success =>
    have hend : (s.queueWith i h (some success)).outstanding = s.outstanding ++ [i] := by
      simp [outstanding, queueWith]
    rw [hend]
    exact perm_append_singleton i _

section

variable {m : Fin (n + 1) → ℕ} {extra : ℕ}

theorem Circulates.queueWith (hs : Circulates s ws m extra)
    (hi : m i = 0) {h : Option ℕ} {answer : Option Bool} (hheld : answer ≠ some false → h ≠ none) :
    Circulates (s.queueWith i h answer) ws (update m i 1) extra := by
  obtain ⟨hleads, hcount, hkernel, hqueued, hwaiting, hpending⟩ := hs
  have hi := hi ▸ hcount i
  have hout : i ∉ s.outstanding := count_eq_zero.mp (by omega)
  have hws : i ∉ ws := count_eq_zero.mp (by omega)
  rw [outstanding, mem_append, not_or] at hout
  have hframe {j : Fin (n + 1)} (hne : j ≠ i) :
      ((s.queueWith i h answer).req j).pipeHandle = (s.req j).pipeHandle :=
    congrArg PipeAcceptReq.pipeHandle (update_of_ne hne ..)
  have hself : ((s.queueWith i h answer).req i).pipeHandle = h := by
    dsimp only [PipeServer.queueWith]
    rw [update_self]
  have hperm := s.outstanding_queueWith i h answer
  constructor
  · have hlinks : (s.queueWith i h answer).links = s.links :=
      (s.links_update i _).trans (update_eq_self i s.links)
    rw [hlinks]
    exact hleads
  · intro j
    have hj := hcount j
    rw [hperm.count_eq, count_cons]
    by_cases hij : j = i
    · subst hij
      rw [update_self, if_pos (beq_self_eq_true j)]
      omega
    · rw [update_of_ne hij, if_neg (by simpa using Ne.symm hij)]
      exact hj
  · intro hopen j hj
    by_cases hij : j = i
    · subst hij
      rw [hself]
      apply hheld
      rintro rfl
      exact hout.1 hj
    · rw [hframe hij]
      apply hkernel hopen
      cases answer with
      | none => exact (mem_append.mp hj).resolve_right (by simpa using hij)
      | some success => exact hj
  · intro hopen j hj
    by_cases hij : j = i
    · subst hij
      rw [hself]
      apply hheld
      rintro rfl
      have hmem := (mem_append.mp hj).resolve_right (by simp)
      exact hout.2 (mem_map_of_mem hmem)
    · rw [hframe hij]
      apply hqueued hopen
      apply (mem_append.mp hj).resolve_right
      intro hmem
      obtain ⟨success, -, heq⟩ := mem_map.mp hmem
      exact hij (Prod.ext_iff.mp heq).1.symm
  · intro hopen j hj
    rw [hframe (ne_of_mem_of_not_mem hj hws)]
    exact hwaiting hopen j hj
  · change s.reqsPending + 1 = _
    rw [hperm.length_eq, length_cons, hpending]
    omega

/-- Only the queues, the pipes and the links matter, and the pipes only until the server closes. -/
theorem Circulates.congr (hs : Circulates s ws m extra)
    (hlinks : t.links = s.links) (haccepts : t.pendingAccepts = s.pendingAccepts)
    (hkernel : t.kernel = s.kernel) (hqueued : t.queued = s.queued)
    (hpending : t.reqsPending = s.reqsPending)
    (hpipes : t.closing = false → s.closing = false ∧ t.req = s.req) :
    Circulates t ws m extra := by
  have hout : t.outstanding = s.outstanding := by rw [outstanding, hkernel, hqueued, outstanding]
  constructor
  · rw [hlinks, haccepts]
    exact hs.leads
  · rw [hout]
    exact hs.count
  · intro hopen
    obtain ⟨hopen, hreq⟩ := hpipes hopen
    rw [hkernel, hreq]
    exact hs.kernel hopen
  · intro hopen
    obtain ⟨hopen, hreq⟩ := hpipes hopen
    rw [hqueued, hreq]
    exact hs.queued hopen
  · intro hopen
    obtain ⟨hopen, hreq⟩ := hpipes hopen
    rw [hreq]
    exact hs.waiting hopen
  · rw [hpending, hout]
    exact hs.reqsPending

theorem Circulates.setReq (hs : Circulates s ws m extra)
    (hi : m i = 0) (r : PipeAcceptReq n) : Circulates (s.setReq i r) ws m extra := by
  have hi := hi ▸ hs.count i
  have hout : i ∉ s.outstanding := count_eq_zero.mp (by omega)
  have hws : i ∉ ws := count_eq_zero.mp (by omega)
  rw [outstanding, mem_append, not_or] at hout
  have hframe {j : Fin (n + 1)} (hne : j ≠ i) : (s.setReq i r).req j = s.req j :=
    update_of_ne hne ..
  constructor
  · have hlinks : (s.setReq i r).links = update s.links i r.nextPending :=
      s.links_update i r
    rw [hlinks]
    exact hs.leads.update hws _
  · exact hs.count
  · intro hopen j hj
    rw [hframe (ne_of_mem_of_not_mem hj hout.1)]
    exact hs.kernel hopen j hj
  · intro hopen j hj
    rw [hframe (ne_of_mem_of_not_mem (mem_map_of_mem hj) hout.2)]
    exact hs.queued hopen j hj
  · intro hopen j hj
    rw [hframe (ne_of_mem_of_not_mem hj hws)]
    exact hs.waiting hopen j hj
  · exact hs.reqsPending

theorem Circulates.take {success : Bool}
    (hs : Circulates s ws m extra) (hmem : (i, success) ∈ s.queued) (hi : m i ≤ 1) :
    Circulates { s with queued := s.queued.erase (i, success) } ws (update m i 0)
      (extra + 1) ∧ m i = 1 := by
  set t : PipeServer n κ := { s with queued := s.queued.erase (i, success) }
  have hperm : s.outstanding.Perm (i :: t.outstanding) := by
    have hqueued := (perm_cons_erase hmem).map Prod.fst
    exact (hqueued.append_left s.kernel).trans perm_middle
  have hcount := hs.count i
  rw [hperm.count_eq, count_cons_self] at hcount
  constructor
  · constructor
    · exact hs.leads
    · intro j
      by_cases hij : j = i
      · subst hij
        rw [update_self]
        omega
      · have hj := hs.count j
        rw [hperm.count_eq, count_cons_of_ne (Ne.symm hij)] at hj
        rw [update_of_ne hij]
        exact hj
    · exact hs.kernel
    · exact fun hopen j hj => hs.queued hopen j (mem_of_mem_erase hj)
    · exact hs.waiting
    · have hlen := hs.reqsPending
      rw [hperm.length_eq, length_cons] at hlen
      change s.reqsPending = _
      omega
  · omega

theorem Circulates.complete (hs : Circulates s ws m extra) (hmem : i ∈ s.kernel) (success : Bool) :
    Circulates { s with kernel := s.kernel.erase i, queued := s.queued ++ [(i, success)] } ws m
      extra := by
  set t : PipeServer n κ :=
    { s with kernel := s.kernel.erase i, queued := s.queued ++ [(i, success)] }
  have hperm : s.outstanding.Perm t.outstanding := by
    have hkernel := (perm_cons_erase hmem).append_right (s.queued.map Prod.fst)
    have hsplit : t.outstanding = (s.kernel.erase i ++ s.queued.map Prod.fst) ++ [i] := by
      simp [t, outstanding]
    rw [hsplit]
    exact hkernel.trans (perm_append_singleton i _).symm
  constructor
  · exact hs.leads
  · intro j
    rw [← hperm.count_eq]
    exact hs.count j
  · exact fun hopen j hj => hs.kernel hopen j (mem_of_mem_erase hj)
  · intro hopen j hj
    rcases mem_append.mp hj with hj | hj
    · exact hs.queued hopen j hj
    · obtain ⟨rfl, -⟩ := Prod.ext_iff.mp (mem_singleton.mp hj)
      exact hs.kernel hopen j hmem
  · exact hs.waiting
  · change s.reqsPending = _
    rw [← hperm.length_eq]
    exact hs.reqsPending

theorem Circulates.push (hs : Circulates s ws m extra)
    (hi : m i = 0) (hpipe : (s.req i).pipeHandle ≠ none) :
    Circulates { s.setReq i { s.req i with nextPending := s.pendingAccepts } with
      pendingAccepts := some i } (i :: ws) (update m i 1) extra := by
  have hset := hs.setReq hi { s.req i with nextPending := s.pendingAccepts }
  have hi := hi ▸ hs.count i
  have hws : i ∉ ws := count_eq_zero.mp (by omega)
  constructor
  · have hpush := hs.leads.push hws
    rw [← s.links_update i ⟨(s.req i).pipeHandle, s.pendingAccepts⟩] at hpush
    exact hpush
  · intro j
    have hj := hs.count j
    change s.outstanding.count j + _ = _
    rw [count_cons]
    by_cases hij : j = i
    · subst hij
      rw [update_self, if_pos (beq_self_eq_true j)]
      omega
    · rw [update_of_ne hij, if_neg (by simpa using Ne.symm hij)]
      exact hj
  · exact hset.kernel
  · exact hset.queued
  · intro hopen j hj
    rcases mem_cons.mp hj with rfl | hj
    · dsimp only [PipeServer.setReq]
      rw [update_self]
      exact hpipe
    · exact hset.waiting hopen j hj
  · exact hs.reqsPending

theorem Circulates.pop (hs : Circulates s ws m extra)
    (haccepts : s.pendingAccepts = some i) (hi : m i ≤ 1) :
    ∃ rest, Circulates { s.setReq i ⟨none, none⟩ with pendingAccepts := (s.req i).nextPending }
      rest (update m i 0) extra ∧ m i = 1 := by
  obtain ⟨hleads, hcount, hkernel, hqueued, hwaiting, hpending⟩ := hs
  rw [haccepts] at hleads
  obtain ⟨rest, rfl, hrest⟩ := leads_some.mp hleads
  have hone := hcount i
  rw [count_cons_self] at hone
  have hpopped : Circulates { s with pendingAccepts := (s.req i).nextPending } rest
      (update m i 0) extra := by
    constructor
    · exact hrest
    · intro j
      by_cases hij : j = i
      · subst hij
        rw [update_self]
        change s.outstanding.count j + _ = _
        omega
      · have hj := hcount j
        rw [count_cons_of_ne (Ne.symm hij)] at hj
        rw [update_of_ne hij]
        exact hj
    · exact hkernel
    · exact hqueued
    · exact fun hopen j hj => hwaiting hopen j (mem_cons_of_mem i hj)
    · exact hpending
  refine ⟨rest, hpopped.setReq (update_self ..) ⟨none, none⟩, ?_⟩
  omega

theorem Circulates.decrease (hs : Circulates s ws m (extra + 1)) :
    s.decreasePendingReqCount = some { s with reqsPending := s.reqsPending - 1 } ∧
      Circulates { s with reqsPending := s.reqsPending - 1 } ws m extra := by
  have hpending := hs.reqsPending
  constructor
  · exact if_neg (by omega)
  · refine { hs with reqsPending := ?_ }
    change s.reqsPending - 1 = s.outstanding.length + extra
    omega

end

/-! ### One event -/

theorem update_back {m : Fin (n + 1) → ℕ} (hi : m i = 1) :
    update (update m i 0) i 1 = m := by
  rw [update_idem]
  exact update_eq_iff.mpr ⟨hi.symm, fun _ _ => rfl⟩

def flags (s : PipeServer n κ) : Bool × Bool × Bool × ℤ :=
  (s.listening, s.closing, s.closed, s.activecnt)

theorem Circulates.queueAccept {m : Fin (n + 1) → ℕ} {extra : ℕ} (hs : Circulates s ws m extra)
    (hlistening : s.listening = true) (hi : m i = 0) {firstInstance : Bool}
    (hpipe : firstInstance = true ↔ (s.req i).pipeHandle ≠ none) (calls : AcceptCalls) :
    ∃ t, s.uvPipeQueueAccept i firstInstance calls = some t ∧
      Circulates t ws (update m i 1) extra ∧ t.flags = s.flags ∧
      t.callback = s.callback ∧ ∀ j, j ≠ i → t.req j = s.req j := by
  obtain ⟨h, answer, heq, hheld⟩ := uvPipeQueueAccept_eq hlistening hpipe calls
  refine ⟨_, heq, hs.queueWith hi hheld, rfl, rfl, ?_⟩
  intro j hj
  exact update_of_ne hj ..

/-- The loop of `uv_pipe_listen` queues requests of which only the first has a pipe. -/
theorem Circulates.queueAccepts {is : List (Fin (n + 1))} (hnodup : is.Nodup)
    {m : Fin (n + 1) → ℕ} {extra : ℕ} (hs : Circulates s ws m extra)
    (hlistening : s.listening = true) (hfree : ∀ i ∈ is, m i = 0)
    (hpipe : ∀ i ∈ is, (s.req i).pipeHandle ≠ none ↔ i = 0) (calls : Fin (n + 1) → AcceptCalls) :
    ∃ t, is.foldlM (fun s i => s.uvPipeQueueAccept i (i = 0) (calls i)) s = some t ∧
      Circulates t ws (fun i => if i ∈ is then 1 else m i) extra ∧ t.flags = s.flags ∧
      t.callback = s.callback := by
  induction is generalizing s m with
  | nil => exact ⟨s, rfl, by simpa using hs, rfl, rfl⟩
  | cons i is ih =>
    obtain ⟨hi, hnodup⟩ := nodup_cons.mp hnodup
    have hfirst := hpipe i mem_cons_self
    obtain ⟨u, hu, hcirculates, hflags, hcallback, hframe⟩ := hs.queueAccept hlistening
      (hfree i mem_cons_self) (decide_eq_true_iff.trans hfirst.symm) (calls i)
    have hne {j : Fin (n + 1)} (hj : j ∈ is) : j ≠ i := ne_of_mem_of_not_mem hj hi
    have hfree' : ∀ j ∈ is, update m i 1 j = 0 := by
      intro j hj
      rw [update_of_ne (hne hj)]
      exact hfree j (mem_cons_of_mem i hj)
    have hpipe' : ∀ j ∈ is, (u.req j).pipeHandle ≠ none ↔ j = 0 := by
      intro j hj
      rw [hframe j (hne hj)]
      exact hpipe j (mem_cons_of_mem i hj)
    have hlistening' : u.listening = true := (congrArg Prod.fst hflags).trans hlistening
    obtain ⟨t, ht, hall, hflags', hcallback'⟩ := ih hnodup hcirculates hlistening' hfree' hpipe'
    refine ⟨t, ?_, ?_, hflags'.trans hflags, hcallback'.trans hcallback⟩
    · rw [foldlM_cons, hu]
      exact ht
    · have hmembers : (fun j => if j ∈ i :: is then 1 else m j) =
          fun j => if j ∈ is then 1 else update m i 1 j := by
        funext j
        by_cases hij : j = i
        · subst hij
          rw [if_pos mem_cons_self, if_neg hi, update_self]
        · simp only [mem_cons, hij, false_or, update_of_ne hij]
      rw [hmembers]
      exact hall

/-- The requests circulate once the server listens, one answer more is counted during the
callback, and a closing server has no pipes left. -/
structure Settled (s : PipeServer n κ) (ws : List (Fin (n + 1))) (m : Fin (n + 1) → ℕ) :
    Prop where
  circulates : Circulates s ws m (if s.callback then 1 else 0)
  le_one : ∀ i, m i ≤ 1
  idle : s.listening = false → s.closing = false →
    (∀ i, m i = 0) ∧ ∀ i, (s.req i).pipeHandle ≠ none ↔ i = 0
  listening : s.listening = true → s.closing = false ∧ ∀ i, m i = 1
  closing : s.closing = true → ∀ i, (s.req i).pipeHandle = none
  activecnt : s.activecnt = if s.listening then 1 else 0
  closed : s.closed = true → s.closing = true ∧ s.reqsPending = 0

section

variable {m : Fin (n + 1) → ℕ}

theorem Settled.listening_of_one (h : Settled s ws m) (hi : m i = 1)
    (hopen : s.closing = false) : s.listening = true := by
  by_contra hidle
  have hzero := (h.idle (by simpa using hidle) hopen).1 i
  omega

theorem Settled.open_of_not_closing (h : Settled s ws m)
    (hopen : s.closing = false) : s.closed = false := by
  by_contra hclosed
  cases hopen.symm.trans (h.closed (by simpa using hclosed)).1

theorem Settled.of_listening {extra : ℕ} (h : Settled s ws m)
    (hlistening : s.listening = true) (ht : Circulates t ws' m extra) (hflags : t.flags = s.flags)
    (hextra : extra = if t.callback then 1 else 0) : Settled t ws' m := by
  obtain ⟨hopen, hone⟩ := h.listening hlistening
  simp only [flags, Prod.ext_iff, hlistening, hopen, h.open_of_not_closing hopen] at hflags
  obtain ⟨hlistens, hopen, hclosed, hactive⟩ := hflags
  refine ⟨hextra ▸ ht, h.le_one, ?_, fun _ => ⟨hopen, hone⟩, ?_, ?_, ?_⟩
  · intro hidle
    cases hlistens.symm.trans hidle
  · intro hclosing
    cases hopen.symm.trans hclosing
  · rw [hactive, h.activecnt, hlistening, hlistens]
  · intro hset
    cases hclosed.symm.trans hset

theorem Settled.listen (h : Settled s ws m) (hopen : s.closing = false)
    (hidle : s.listening = false) (cb : Bool) (calls : Fin (n + 1) → AcceptCalls) :
    ∃ t, s.uvPipeListen cb calls = some t ∧ Settled t ws fun _ => 1 := by
  obtain ⟨hzero, hfirst⟩ := h.idle hidle hopen
  have hclosed := h.open_of_not_closing hopen
  rw [uvPipeListen]
  dsimp only
  rw [if_neg ((hfirst 0).mpr rfl)]
  obtain ⟨t, ht, hcirculates, hflags, hcallback⟩ :=
    (h.circulates.congr (t := { s with
      listening := true, activecnt := s.activecnt + 1, connectionCb := cb }) rfl rfl rfl rfl rfl
      fun hopen => ⟨hopen, rfl⟩).queueAccepts (nodup_finRange (n + 1)) rfl
      (fun i _ => hzero i) (fun i _ => hfirst i) calls
  refine ⟨t, ht, ?_⟩
  simp only [mem_finRange, if_true] at hcirculates
  simp only [flags, Prod.ext_iff, hopen, hclosed, h.activecnt, hidle] at hflags
  obtain ⟨hlistens, hopen, hclosed, hactive⟩ := hflags
  refine ⟨hcallback ▸ hcirculates, fun _ => le_rfl, ?_, fun _ => ⟨hopen, fun _ => rfl⟩, ?_, ?_, ?_⟩
  · intro hidle
    cases hlistens.symm.trans hidle
  · intro hclosing
    cases hopen.symm.trans hclosing
  · rw [hactive, hlistens]
    rfl
  · intro hset
    cases hclosed.symm.trans hset

/-- `uv_accept` takes a connection from the stack, and queues its request if the server is open. -/
theorem Settled.accept (h : Settled s ws m) (client : κ)
    (calls : AcceptCalls) :
    ∃ t ws' m', (s.uvPipeAccept client calls).map Prod.fst = some t ∧ Settled t ws' m' := by
  rw [uvPipeAccept]
  cases haccepts : s.pendingAccepts with
  | none => exact ⟨s, ws, m, rfl, h⟩
  | some i =>
    obtain ⟨rest, hpopped, hone⟩ := h.circulates.pop haccepts (h.le_one i)
    set u : PipeServer n κ := { s.setReq i ⟨none, none⟩ with
      accepted := s.accepted ++ [(client, (s.req i).pipeHandle)]
      pendingAccepts := (s.req i).nextPending }
    have hu : Circulates u rest (update m i 0) (if s.callback then 1 else 0) :=
      hpopped.congr rfl rfl rfl rfl rfl fun hopen => ⟨hopen, rfl⟩
    have hnone : (u.req i).pipeHandle = none := by
      dsimp only [u, setReq]
      rw [update_self]
    by_cases hclosing : s.closing = true
    · refine ⟨u, rest, update m i 0, ?_, hu, ?_, ?_, ?_, ?_, h.activecnt, h.closed⟩
      · change ((if s.closing then some u else _).map fun t => (t, true)).map Prod.fst = some u
        rw [if_pos hclosing]
        rfl
      · intro j
        by_cases hij : j = i
        · subst hij
          rw [update_self]
          exact Nat.zero_le 1
        · rw [update_of_ne hij]
          exact h.le_one j
      · intro _ hopen
        cases hopen.symm.trans hclosing
      · intro hlistening
        cases (h.listening hlistening).1.symm.trans hclosing
      · intro _ j
        by_cases hij : j = i
        · subst hij
          exact hnone
        · dsimp only [u, setReq]
          rw [update_of_ne hij]
          exact h.closing hclosing j
    · have hopen : s.closing = false := by simpa using hclosing
      have hlistening := h.listening_of_one hone hopen
      have hpipe : false = true ↔ (u.req i).pipeHandle ≠ none := by simp [hnone]
      obtain ⟨t, ht, hcirculates, hflags, hcallback, -⟩ :=
        hu.queueAccept hlistening (update_self ..) hpipe calls
      rw [update_back hone] at hcirculates
      have hsame : t.callback = s.callback := hcallback
      refine ⟨t, rest, m, ?_, h.of_listening hlistening hcirculates hflags (by rw [hsame])⟩
      change ((if s.closing then some u else u.uvPipeQueueAccept i false calls).map
        fun t => (t, true)).map Prod.fst = some t
      rw [if_neg hclosing, ht]
      rfl

theorem Settled.process (h : Settled s ws m) {success : Bool}
    (hmem : (i, success) ∈ s.queued) (hcallback : s.callback = false) (calls : AcceptCalls) :
    ∃ t ws' m', s.uvProcessPipeAcceptReq i success calls = some t ∧ Settled t ws' m' := by
  obtain ⟨htaken, hone⟩ := h.circulates.take hmem (h.le_one i)
  have hextra : (if s.callback then 1 else 0) = 0 := if_neg (by simp [hcallback])
  rw [hextra] at htaken
  rw [uvProcessPipeAcceptReq]
  set u : PipeServer n κ := { s with queued := s.queued.erase (i, success) }
  have hzero : update m i 0 i = 0 := update_self ..
  dsimp only
  by_cases hclosing : s.closing = true
  · obtain ⟨hdecreased, hsettled⟩ := htaken.decrease
    refine ⟨{ u with reqsPending := u.reqsPending - 1 }, ws, update m i 0, ?_, ?_, ?_, ?_,
      ?_, h.closing, h.activecnt, ?_⟩
    · rw [if_pos hclosing, if_neg (not_not.mpr (h.closing hclosing i)), hdecreased]
    · change Circulates _ ws _ (if s.callback then 1 else 0)
      rw [hextra]
      exact hsettled
    · intro j
      by_cases hij : j = i
      · subst hij
        rw [hzero]
        exact Nat.zero_le 1
      · rw [update_of_ne hij]
        exact h.le_one j
    · intro _ hopen
      cases hopen.symm.trans hclosing
    · intro hlistening
      cases (h.listening hlistening).1.symm.trans hclosing
    · intro hclosed
      obtain ⟨-, hpending⟩ := h.closed hclosed
      exact ⟨hclosing, by change s.reqsPending - 1 = 0; omega⟩
  · have hopen : s.closing = false := by simpa using hclosing
    have hlistening := h.listening_of_one hone hopen
    rw [if_neg hclosing]
    cases success with
    | true =>
      have hpipe := h.circulates.queued hopen i hmem
      have hpushed := htaken.push hzero hpipe
      rw [update_back hone] at hpushed
      rw [if_pos rfl, if_neg hpipe]
      by_cases hcb : s.connectionCb = true
      · refine ⟨_, i :: ws, m, if_pos hcb, h.of_listening hlistening ?_ rfl rfl⟩
        exact hpushed.congr rfl rfl rfl rfl rfl fun hopen => ⟨hopen, rfl⟩
      · obtain ⟨hdecreased, hsettled⟩ := hpushed.decrease
        refine ⟨_, i :: ws, m, (if_neg hcb).trans hdecreased,
          h.of_listening hlistening hsettled rfl ?_⟩
        exact hextra.symm
    | false =>
      have hnone : ((u.setPipeHandle i none).req i).pipeHandle = none := by
        dsimp only [setPipeHandle, setReq]
        rw [update_self]
      have hpipe : false = true ↔ ((u.setPipeHandle i none).req i).pipeHandle ≠ none := by
        simp [hnone]
      obtain ⟨v, hv, hcirculates, hflags, hstays, -⟩ :=
        (htaken.setReq hzero ⟨none, (u.req i).nextPending⟩).queueAccept hlistening hzero hpipe calls
      rw [update_back hone] at hcirculates
      obtain ⟨hdecreased, hsettled⟩ := hcirculates.decrease
      refine ⟨_, ws, m, ?_, h.of_listening hlistening hsettled hflags ?_⟩
      · rw [if_neg Bool.false_ne_true]
        exact (congrArg (Option.bind · decreasePendingReqCount) hv).trans hdecreased
      · have hsame : v.callback = s.callback := hstays
        dsimp only
        rw [hsame, hextra]

theorem Settled.close (h : Settled s ws m) (hopen : s.closing = false) :
    ∃ t, s.uvPipeClose = some t ∧ Settled t ws m := by
  have hactive : (if s.listening then s.activecnt - 1 else s.activecnt) = 0 := by
    rw [h.activecnt]
    cases s.listening <;> rfl
  rw [uvPipeClose]
  dsimp only
  rw [hactive, if_neg (lt_irrefl 0)]
  refine ⟨_, rfl, ?_, h.le_one, ?_, ?_, fun _ _ => rfl, rfl, ?_⟩
  · refine h.circulates.congr rfl rfl rfl rfl rfl ?_
    intro hopen
    cases hopen
  · intro _ hopen
    cases hopen
  · intro hlistening
    cases hlistening
  · intro hclosed
    cases (h.open_of_not_closing hopen).symm.trans hclosed

theorem Settled.returned (h : Settled s ws m)
    (hcallback : s.callback = true) :
    ∃ t, { s with callback := false }.decreasePendingReqCount = some t ∧ Settled t ws m := by
  have hcirculates := h.circulates
  rw [if_pos hcallback] at hcirculates
  have hreturned : Circulates { s with callback := false } ws m (0 + 1) :=
    hcirculates.congr rfl rfl rfl rfl rfl fun hopen => ⟨hopen, rfl⟩
  obtain ⟨hdecreased, hsettled⟩ := hreturned.decrease
  refine ⟨_, hdecreased, hsettled, h.le_one, h.idle, h.listening, h.closing, h.activecnt, ?_⟩
  intro hclosed
  obtain ⟨hclosing, hpending⟩ := h.closed hclosed
  exact ⟨hclosing, by change s.reqsPending - 1 = 0; omega⟩

/-- An event that can happen keeps the requests apart, and no assertion fails. -/
theorem Settled.step (h : Settled s ws m) {e : Event n κ}
    (henabled : Enabled s e) (hcareful : Careful s e) :
    ∃ t ws' m', s.step e = some t ∧ Settled t ws' m' := by
  rw [PipeServer.step, if_pos henabled]
  cases e with
  | listen cb calls =>
    obtain ⟨t, ht, hsettled⟩ := h.listen henabled hcareful cb calls
    exact ⟨t, ws, _, ht, hsettled⟩
  | accept client calls => exact h.accept client calls
  | close =>
    obtain ⟨t, ht, hsettled⟩ := h.close henabled
    exact ⟨t, ws, m, ht, hsettled⟩
  | completed i success =>
    exact ⟨_, ws, m, rfl, h.circulates.complete henabled success, h.le_one, h.idle, h.listening,
      h.closing, h.activecnt, h.closed⟩
  | process i success calls => exact h.process henabled.1 henabled.2 calls
  | returned =>
    obtain ⟨t, ht, hsettled⟩ := h.returned henabled
    exact ⟨t, ws, m, ht, hsettled⟩
  | endgame =>
    obtain ⟨hclosing, -, hpending, -⟩ := henabled
    refine ⟨_, ws, m, rfl, ?_, h.le_one, h.idle, h.listening, h.closing, h.activecnt, ?_⟩
    · exact h.circulates.congr rfl rfl rfl rfl rfl fun hopen => ⟨hopen, rfl⟩
    · exact fun _ => ⟨hclosing, hpending⟩

end

theorem Settled.of_init (h : Init s) : Settled s [] fun _ => 0 := by
  obtain ⟨hfirst, hothers, haccepts, hlistening, hclosing, hclosed, hpending, hactive, hkernel,
    hqueued, hcallback⟩ := h
  have hout : s.outstanding = [] := by rw [outstanding, hkernel, hqueued]; rfl
  refine ⟨⟨?_, ?_, ?_, ?_, ?_, ?_⟩, fun _ => Nat.zero_le 1, ?_, ?_, ?_, ?_, ?_⟩
  · rw [haccepts]
    exact .nil
  · simp [hout]
  · simp [hkernel]
  · simp [hqueued]
  · simp
  · simp [hpending, hout, hcallback]
  · intro _ _
    refine ⟨fun _ => rfl, fun i => ⟨?_, ?_⟩⟩
    · intro hpipe
      by_contra hne
      exact hpipe (hothers i hne)
    · rintro rfl
      exact hfirst
  · simp [hlistening]
  · simp [hclosing]
  · simp [hactive, hlistening]
  · simp [hclosed]

/-! ### Runs -/

theorem Settled.of_reachable (h : Reachable Init (Guarded Careful Step) s) :
    ∃ ws m, Settled s ws m := by
  refine h.invariant (P := fun s => ∃ ws m, Settled s ws m)
    (fun s hinit => ⟨[], _, .of_init hinit⟩) ?_
  rintro s e t _ ⟨ws, m, hs⟩ ⟨hcareful, hstep⟩
  obtain ⟨henabled, -⟩ := Option.ite_none_right_eq_some.mp hstep
  obtain ⟨u, ws', m', hu, hsettled⟩ := hs.step henabled hcareful
  rw [Option.some.inj (hstep.symm.trans hu)]
  exact ⟨ws', m', hsettled⟩

/-- In a run in which the pipe is not told to listen twice, each request of a pipe that listens is
either outstanding or waits with its connection for `uv_accept`, once; of a pipe that closes it has
lost its pipe, and is outstanding at most once. `reqs_pending` counts the outstanding ones and the
one whose callback runs, `activecnt` says whether the pipe listens, and no assertion fails. -/
theorem requests_accounted (h : Reachable Init (Guarded Careful Step) s) :
    ∃ ws, Leads s.links s.pendingAccepts ws ∧
      (s.listening = true → (∀ i, s.outstanding.count i + ws.count i = 1) ∧
        ∀ i ∈ ws, (s.req i).pipeHandle ≠ none) ∧
      (s.closing = true → ∀ i, (s.req i).pipeHandle = none ∧
        s.outstanding.count i + ws.count i ≤ 1) ∧
      (s.listening = false → s.closing = false → s.outstanding = [] ∧ ws = []) ∧
      (s.closed = true → s.outstanding = []) ∧
      s.reqsPending = s.outstanding.length + (if s.callback then 1 else 0) ∧
      s.activecnt = (if s.listening then 1 else 0) ∧
      ∀ e, Enabled s e → Careful s e → ∃ t, Step s e t := by
  obtain ⟨ws, m, hs⟩ := Settled.of_reachable h
  have hcount := hs.circulates.count
  have hpending := hs.circulates.reqsPending
  refine ⟨ws, hs.circulates.leads, ?_, ?_, ?_, ?_, hpending, hs.activecnt, ?_⟩
  · intro hlistening
    obtain ⟨hopen, hone⟩ := hs.listening hlistening
    exact ⟨fun i => (hcount i).trans (hone i), hs.circulates.waiting hopen⟩
  · intro hclosing i
    exact ⟨hs.closing hclosing i, (hcount i).trans_le (hs.le_one i)⟩
  · intro hidle hopen
    have hzero (i : Fin (n + 1)) : s.outstanding.count i + ws.count i = 0 :=
      (hcount i).trans ((hs.idle hidle hopen).1 i)
    constructor
    · apply List.eq_nil_iff_forall_not_mem.mpr
      intro i
      exact List.count_eq_zero.mp (Nat.add_eq_zero_iff.mp (hzero i)).1
    · apply List.eq_nil_iff_forall_not_mem.mpr
      intro i
      exact List.count_eq_zero.mp (Nat.add_eq_zero_iff.mp (hzero i)).2
  · intro hclosed
    have hnone := (hs.closed hclosed).2
    apply List.eq_nil_of_length_eq_zero
    omega
  · intro e henabled hcareful
    obtain ⟨t, -, -, ht, -⟩ := hs.step henabled hcareful
    exact ⟨t, ht⟩

/-! ### Concrete runs -/

def boundServer (n : ℕ) : PipeServer n ℕ where
  req i := ⟨if i = 0 then some 100 else none, none⟩
  pendingAccepts := none
  connectionCb := false
  listening := false
  closing := false
  closed := false
  reqsPending := 0
  activecnt := 0
  kernel := []
  queued := []
  callback := false
  accepted := []

theorem init_boundServer (n : ℕ) : Init (boundServer n) := by
  refine ⟨?_, ?_, rfl, rfl, rfl, rfl, rfl, rfl, rfl, rfl, rfl⟩
  · simp [boundServer]
  · intro i hi
    simp [boundServer, hi]

instance (s : PipeServer n κ) : ∀ e : Event n κ, Decidable (Careful s e)
  | .listen _ _ => inferInstanceAs (Decidable (_ = _))
  | .accept _ _ => .isTrue trivial
  | .close => .isTrue trivial
  | .completed _ _ => .isTrue trivial
  | .process _ _ _ => .isTrue trivial
  | .returned => .isTrue trivial
  | .endgame => .isTrue trivial

def waits (pipeHandle : ℕ) : AcceptCalls := ⟨some pipeHandle, true, .pending⟩

/-- Of two requests one fails and is queued again, the other one connects and is accepted. -/
theorem requests_accounted_two : ∃ s : PipeServer 1 ℕ, s.accepted = [(7, some 100)] ∧
    s.reqsPending = s.outstanding.length ∧ s.outstanding = [1, 0] ∧ s.activecnt = 1 := by
  have hsome : ([Event.listen true fun i => waits (200 + i), .completed 0 true, .completed 1 false,
      .process 0 true (waits 0), .accept 7 (waits 300), .returned, .process 1 false (waits 301),
      .completed 0 false, .process 0 false (waits 302)].foldlM
        (fun s e => if Careful s e then step s e else none) (boundServer 1)).isSome = true := by rfl
  obtain ⟨ws, -, -, -, -, -, hpending, hactive, -⟩ :=
    requests_accounted (.of_foldlM_if (.init (init_boundServer 1)) (Option.some_get hsome).symm)
  exact ⟨_, by rfl, hpending, by rfl, hactive⟩

/-- A second `uv_listen` queues the only request twice, and with the default number of requests
the assertion of `uv_pipe_queue_accept` fails. -/
theorem listenTwice_fails :
    (∃ s : PipeServer 0 ℕ, Reachable Init Step s ∧ s.outstanding = [0, 0] ∧ s.activecnt = 2) ∧
      ∃ s : PipeServer 3 ℕ, Reachable Init Step s ∧
        ∃ e, Enabled s e ∧ s.step e = none := by
  constructor
  · have hsome : ([Event.listen true fun _ => waits 200, .listen true fun _ => waits 300].foldlM step
        (boundServer 0)).isSome = true := by rfl
    exact ⟨_, .of_foldlM (.init (init_boundServer 0)) (Option.some_get hsome).symm, by rfl, by rfl⟩
  · have hsome : ([Event.listen true fun i => waits (200 + i)].foldlM step
        (boundServer 3)).isSome = true := by rfl
    exact ⟨_, .of_foldlM (.init (init_boundServer 3)) (Option.some_get hsome).symm,
      .listen true fun _ => waits 300, by rfl, by rfl⟩

end PipeServer

end LibuvWorks.Win
