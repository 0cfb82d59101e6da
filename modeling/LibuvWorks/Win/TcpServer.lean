import LibuvWorks.Lib.LinkedStack
import LibuvWorks.Lib.Transition
import Mathlib.Data.Fintype.Card

/-!
# Windows tcp servers: `win/tcp.c`

A listening socket has a fixed number of accept requests, which wait for a connection in the kernel,
for the loop, or on a linked stack for `uv_accept`. `uv_tcp_simultaneous_accepts` lets them run out,
and then queues one of them only. `activecnt`, the client of `uv_accept` and the endgame, which
frees the requests, are left out.
-/
open List Function Bool

namespace LibuvWorks.Win

abbrev uvSimultaneousServerAccepts : ℕ := 32

/-- The place of a request in `accept_reqs`. -/
abbrev AcceptId := Fin uvSimultaneousServerAccepts

/-- What happens when a request is queued: there is no socket for it or `AcceptEx` fails, `AcceptEx`
has accepted a connection or waits for one, or the wait for its event cannot be registered. -/
inductive AcceptOutcome where
  | failed : AcceptOutcome
  | succeeded : AcceptOutcome
  | pending : AcceptOutcome
  | unregistered : AcceptOutcome
  deriving DecidableEq

/-- The server in `uv_tcp_t`. `acceptReqs` says that the requests are allocated, and `acceptSocket`
which of them have a valid socket. `kernel` are the requests that wait in the kernel, `queued` those
that wait for the loop, and `callback` says that the connection callback runs. -/
structure TcpServer where
  acceptReqs : Bool
  listening : Bool
  closing : Bool
  singleAccept : Bool
  acceptStateChanging : Bool
  sharedTcpSocket : Bool
  syncBypass : Bool
  processedAccepts : ℕ
  reqsPending : ℕ
  pendingAccepts : Option AcceptId
  nextPending : AcceptId → Option AcceptId
  acceptSocket : AcceptId → Bool
  kernel : List AcceptId
  queued : List AcceptId
  callback : Bool

namespace TcpServer

variable (s : TcpServer)

/-- `DECREASE_PENDING_REQ_COUNT` at the end of a function. -/
def decreasePending : Option TcpServer :=
  if s.reqsPending = 0 then none
  else some { s with reqsPending := s.reqsPending - 1, callback := false }

def setSocket (r : AcceptId) (valid : Bool) : TcpServer :=
  { s with acceptSocket := Function.update s.acceptSocket r valid }

/-- `uv_insert_pending_req` -/
def insertPendingReq (r : AcceptId) : TcpServer :=
  { s with queued := s.queued ++ [r], reqsPending := s.reqsPending + 1 }

/-- `AcceptEx` waits for a connection. -/
def submit (r : AcceptId) : TcpServer :=
  { s with kernel := s.kernel ++ [r], reqsPending := s.reqsPending + 1 }

/-- `uv_tcp_queue_accept`; `none` if an assertion fails. -/
def uvTcpQueueAccept (r : AcceptId) (outcome : AcceptOutcome) : Option TcpServer :=
  if s.listening = false ∨ s.acceptSocket r = true then none
  else
    match outcome with
    | .failed => some (s.insertPendingReq r)
    | .succeeded =>
      if s.syncBypass then some ((s.setSocket r true).insertPendingReq r)
      else some ((s.setSocket r true).submit r)
    | .pending => some ((s.setSocket r true).submit r)
    | .unregistered => some (((s.setSocket r true).submit r).insertPendingReq r)

/-- `uv_tcp_listen`; `fails` says that the handle cannot listen. -/
def uvTcpListen (fails : Bool) (outcomes : AcceptId → AcceptOutcome) : Option TcpServer :=
  if fails then some s
  else
    let s := { s with listening := true }
    if s.acceptReqs then some s
    else
      let simultaneousAccepts := if s.singleAccept then 1 else uvSimultaneousServerAccepts
      ((List.finRange uvSimultaneousServerAccepts).take simultaneousAccepts).foldlM
        (fun s r => s.uvTcpQueueAccept r (outcomes r))
        { s with acceptReqs := true, acceptSocket := fun _ => false }

/-- `uv_tcp_accept`, which takes a connection from the stack. -/
def uvTcpAccept (outcome : AcceptOutcome) : Option TcpServer :=
  match s.pendingAccepts with
  | none => some s
  | some r =>
    if s.acceptSocket r = false then some s
    else
      let s := { s.setSocket r false with
        pendingAccepts := s.nextPending r
        nextPending := Function.update s.nextPending r none }
      if s.closing then some s
      else if s.acceptStateChanging = false then s.uvTcpQueueAccept r outcome
      else if s.singleAccept = false then none
      else
        let s := { s with processedAccepts := s.processedAccepts + 1 }
        if s.processedAccepts < uvSimultaneousServerAccepts then some s
        else
          ({ s with processedAccepts := 0 }.uvTcpQueueAccept 0 outcome).map fun t : TcpServer =>
            { t with acceptStateChanging := false, singleAccept := true }

/-- `uv_process_tcp_accept_req`, until the callback if it is called; `accepted` says that the
request and `SO_UPDATE_ACCEPT_CONTEXT` have succeeded. -/
def uvProcessTcpAcceptReq (r : AcceptId) (accepted : Bool) (outcome : AcceptOutcome) :
    Option TcpServer :=
  let s := { s with queued := s.queued.erase r }
  if s.acceptSocket r = false then
    -- the request is not queued again
    if s.listening then some { s with listening := false, callback := true }
    else s.decreasePending
  else if accepted then
    some { s with
      nextPending := Function.update s.nextPending r s.pendingAccepts
      pendingAccepts := some r
      callback := true }
  else
    let s := s.setSocket r false
    if s.listening then (s.uvTcpQueueAccept r outcome).bind decreasePending
    else s.decreasePending

def uvTcpSimultaneousAccepts (enable : Bool) : TcpServer :=
  if (enable = true ∧ s.singleAccept = false) ∨ (enable = false ∧ s.singleAccept = true) then s
  else if enable then s
  else if s.acceptStateChanging then s
  else
    let s := { s with singleAccept := true }
    if s.listening then { s with acceptStateChanging := true } else s

/-- `uv_tcp_close`; `cancelled` says that the requests could be cancelled, which is tried where the
socket is shared. -/
def uvTcpClose (cancelled : Bool) : Option TcpServer :=
  if s.closing then none
  else
    let acceptSocket := if s.sharedTcpSocket ∧ s.acceptReqs ∧ cancelled = false then
      fun r => s.acceptSocket r && decide (r ∉ s.kernel) else s.acceptSocket
    some { s with acceptSocket, listening := false, closing := true }

/-- The user calls a function, the kernel completes a request, the loop processes one, or the
callback returns. -/
inductive Event where
  | listen (fails : Bool) (outcomes : AcceptId → AcceptOutcome) : Event
  | accept (outcome : AcceptOutcome) : Event
  | simultaneousAccepts (enable : Bool) : Event
  | close (cancelled : Bool) : Event
  | completed (r : AcceptId) : Event
  | process (r : AcceptId) (accepted : Bool) (outcome : AcceptOutcome) : Event
  | returned : Event

/-- The events that can happen. -/
def Enabled : Event → Prop
  | .listen _ _ => s.closing = false
  | .close _ => s.closing = false
  | .completed r => r ∈ s.kernel
  | .process r _ _ => r ∈ s.queued ∧ s.callback = false
  | .returned => s.callback = true
  | _ => True

instance (e : Event) : Decidable (s.Enabled e) := by
  cases e <;> unfold Enabled <;> infer_instance

def next : Event → Option TcpServer
  | .listen fails outcomes => s.uvTcpListen fails outcomes
  | .accept outcome => s.uvTcpAccept outcome
  | .simultaneousAccepts enable => some (s.uvTcpSimultaneousAccepts enable)
  | .close cancelled => s.uvTcpClose cancelled
  | .completed r => some { s with kernel := s.kernel.erase r, queued := s.queued ++ [r] }
  | .process r accepted outcome => s.uvProcessTcpAcceptReq r accepted outcome
  | .returned => s.decreasePending

def step (e : Event) : Option TcpServer := if s.Enabled e then s.next e else none

def Step (s : TcpServer) (e : Event) (t : TcpServer) : Prop := s.step e = some t

structure Init (s : TcpServer) : Prop where
  acceptReqs : s.acceptReqs = false
  listening : s.listening = false
  closing : s.closing = false
  singleAccept : s.singleAccept = false
  acceptStateChanging : s.acceptStateChanging = false
  processedAccepts : s.processedAccepts = 0
  reqsPending : s.reqsPending = 0
  pendingAccepts : s.pendingAccepts = none
  acceptSocket : ∀ r, s.acceptSocket r = false
  kernel : s.kernel = []
  queued : s.queued = []
  callback : s.callback = false

def outstanding : List AcceptId := s.kernel ++ s.queued

end TcpServer

end LibuvWorks.Win

/-!
## The accept requests of a tcp server are all accounted for

A request is out once or waits for `uv_accept` once, and while the accept state changes those that
are done are counted. Two things go wrong after an error: `uv_tcp_accept` queues a request of a
server that no longer listens, and the request with the error is out of the circulation for ever.
-/
namespace LibuvWorks.Win.TcpServer

open Transition LinkedStack

variable {s t : TcpServer} {e : Event} {r : AcceptId} {outcome : AcceptOutcome}

/-- The handle is used after an error as the code has it in mind: no connection is accepted where it
no longer listens, and where a single accept is wanted no request is or was dropped. The event of an
accept can be waited for. -/
def Careful (s : TcpServer) : Event → Prop
  | .listen _ outcomes => ∀ r, outcomes r ≠ .unregistered
  | .accept outcome => outcome ≠ .unregistered ∧
      (s.pendingAccepts = none ∨ s.closing = true ∨ s.listening = true)
  | .simultaneousAccepts enable => enable = true ∨ s.singleAccept = true ∨ s.acceptReqs = false ∨
      s.closing = true ∨ ∀ r, s.acceptSocket r = true ∨ r ∈ s.queued
  | .process r _ outcome => outcome ≠ .unregistered ∧
      (s.acceptSocket r = true ∨ s.singleAccept = false ∨ s.closing = true)
  | _ => True

instance (s : TcpServer) (e : Event) : Decidable (Careful s e) := by
  cases e <;> dsimp only [Careful] <;> infer_instance

structure AcceptMode where
  acceptReqs : Bool
  listening : Bool
  closing : Bool
  singleAccept : Bool
  acceptStateChanging : Bool
  processedAccepts : ℕ

def mode (s : TcpServer) : AcceptMode :=
  ⟨s.acceptReqs, s.listening, s.closing, s.singleAccept, s.acceptStateChanging, s.processedAccepts⟩

theorem acceptSocket_of_set {x : AcceptId} (hx : (s.setSocket r true).acceptSocket x = true) :
    s.acceptSocket x = true ∨ x = r := by
  change Function.update s.acceptSocket r true x = true at hx
  by_cases hxr : x = r
  · exact .inr hxr
  · rw [update_of_ne hxr] at hx
    exact .inl hx

theorem acceptSocket_of_cleared {x : AcceptId} (hx : (s.setSocket r false).acceptSocket x = true) :
    s.acceptSocket x = true ∧ x ≠ r := by
  change Function.update s.acceptSocket r false x = true at hx
  have hxr : x ≠ r := by
    rintro rfl
    rw [update_self] at hx
    cases hx
  rw [update_of_ne hxr] at hx
  exact ⟨hx, hxr⟩

/-! ### Where the requests are -/

/-- The requests are out or on the stack, each once; `processed` requests are being handled. -/
structure Circulates (s : TcpServer) (waiting : List AcceptId) (processed : ℕ) : Prop where
  leads : Leads s.nextPending s.pendingAccepts waiting
  nodup : (s.outstanding ++ waiting).Nodup
  sockets : ∀ r, s.acceptSocket r = true → r ∈ s.outstanding ++ waiting
  reqs : s.reqsPending = s.outstanding.length + processed

namespace Circulates

variable {waiting rs : List AcceptId} {processed : ℕ}

theorem added (h : Circulates s waiting processed) (hr : r ∉ s.outstanding ++ waiting)
    (hleads : Leads t.nextPending t.pendingAccepts waiting)
    (hperm : t.outstanding.Perm (r :: s.outstanding))
    (hsockets : ∀ x, t.acceptSocket x = true → s.acceptSocket x = true ∨ x = r)
    (hreqs : t.reqsPending = s.reqsPending + 1) : Circulates t waiting processed := by
  have hlive : (t.outstanding ++ waiting).Perm (r :: (s.outstanding ++ waiting)) :=
    hperm.append_right waiting
  constructor
  · exact hleads
  · rw [hlive.nodup_iff]
    exact nodup_cons.mpr ⟨hr, h.nodup⟩
  · intro x hx
    rw [hlive.mem_iff, mem_cons]
    obtain hx | rfl := hsockets x hx
    · exact .inr (h.sockets x hx)
    · exact .inl rfl
  · have hold := h.reqs
    have hlength : t.outstanding.length = s.outstanding.length + 1 := hperm.length_eq
    omega

theorem uvTcpQueueAccept (h : Circulates s waiting processed) (hlistening : s.listening = true)
    (hr : r ∉ s.outstanding ++ waiting) (houtcome : outcome ≠ .unregistered) :
    ∃ t, s.uvTcpQueueAccept r outcome = some t ∧ Circulates t waiting processed ∧
      t.outstanding.Perm (r :: s.outstanding) ∧ t.mode = s.mode ∧ t.callback = s.callback := by
  have hassert : ¬ (s.listening = false ∨ s.acceptSocket r = true) := by
    rintro (hset | hset)
    · cases hlistening.symm.trans hset
    · exact hr (h.sockets r hset)
  have hinsert : (s.kernel ++ (s.queued ++ [r])).Perm (r :: s.outstanding) := by
    rw [← append_assoc]
    exact perm_append_singleton r _
  have hsubmit : (s.kernel ++ [r] ++ s.queued).Perm (r :: s.outstanding) := by
    rw [append_assoc]
    exact perm_middle
  unfold TcpServer.uvTcpQueueAccept
  rw [if_neg hassert]
  cases outcome with
  | failed =>
    exact ⟨_, rfl, h.added hr h.leads hinsert (fun x hx => .inl hx) rfl, hinsert, rfl, rfl⟩
  | succeeded =>
    dsimp only
    split_ifs
    · exact ⟨_, rfl, h.added hr h.leads hinsert (fun _ => acceptSocket_of_set) rfl, hinsert,
        rfl, rfl⟩
    · exact ⟨_, rfl, h.added hr h.leads hsubmit (fun _ => acceptSocket_of_set) rfl, hsubmit,
        rfl, rfl⟩
  | pending => exact ⟨_, rfl, h.added hr h.leads hsubmit (fun _ => acceptSocket_of_set) rfl,
    hsubmit, rfl, rfl⟩
  | unregistered => exact absurd rfl houtcome

theorem queueAll {outcomes : AcceptId → AcceptOutcome} (houtcomes : ∀ r, outcomes r ≠ .unregistered)
    (h : Circulates s waiting processed) (hlistening : s.listening = true)
    (hnew : (rs ++ (s.outstanding ++ waiting)).Nodup) :
    ∃ t, rs.foldlM (fun s r => s.uvTcpQueueAccept r (outcomes r)) s = some t ∧
      Circulates t waiting processed ∧ t.outstanding.length = s.outstanding.length + rs.length ∧
      t.mode = s.mode ∧ t.callback = s.callback := by
  induction rs generalizing s with
  | nil => exact ⟨s, rfl, h, rfl, rfl, rfl⟩
  | cons r rs ih =>
    obtain ⟨hr, hrest⟩ := nodup_cons.mp hnew
    obtain ⟨u, hu, hcirculates, hperm, hmode, hcallback⟩ :=
      h.uvTcpQueueAccept hlistening (fun hmem => hr (mem_append_right rs hmem)) (houtcomes r)
    have hlive : (rs ++ (u.outstanding ++ waiting)).Perm (r :: (rs ++ (s.outstanding ++ waiting))) :=
      ((hperm.append_right waiting).append_left rs).trans perm_middle
    have hlistening' : u.listening = true := (congrArg AcceptMode.listening hmode).trans hlistening
    obtain ⟨t, ht, hcirculates', hlength, hmode', hcallback'⟩ :=
      ih hcirculates hlistening' (hlive.nodup_iff.mpr hnew)
    refine ⟨t, ?_, hcirculates', ?_, hmode'.trans hmode, hcallback'.trans hcallback⟩
    · rw [foldlM_cons, hu]
      exact ht
    · rw [hlength, hperm.length_eq, length_cons, length_cons]
      omega

section

variable (h : Circulates s waiting processed)
include h

theorem pop (hr : s.pendingAccepts = some r) :
    ∃ rest, waiting = r :: rest ∧ r ∉ s.outstanding ++ rest ∧
      Circulates { s.setSocket r false with
        pendingAccepts := s.nextPending r
        nextPending := Function.update s.nextPending r none } rest processed := by
  have hleads := h.leads
  rw [hr] at hleads
  obtain ⟨rest, rfl, hrest⟩ := leads_some.mp hleads
  have hnodup : (r :: (s.outstanding ++ rest)).Nodup := perm_middle.nodup_iff.mp h.nodup
  obtain ⟨hout, hnodup⟩ := nodup_cons.mp hnodup
  refine ⟨rest, rfl, hout, ?_, hnodup, fun x hx => ?_, h.reqs⟩
  · exact hrest.update (fun hmem => hout (mem_append_right _ hmem)) none
  · obtain ⟨hx, hxr⟩ := acceptSocket_of_cleared hx
    have hmem := perm_middle.mem_iff.mp (h.sockets x hx)
    exact (mem_cons.mp hmem).resolve_left hxr

theorem dropped (hr : r ∈ s.queued) {valid : AcceptId → Bool}
    (hvalid : ∀ x, valid x = true → s.acceptSocket x = true ∧ x ≠ r) :
    (r :: (s.kernel ++ s.queued.erase r)).Perm s.outstanding ∧
      r ∉ s.kernel ++ s.queued.erase r ++ waiting ∧
      Circulates { s with queued := s.queued.erase r, acceptSocket := valid } waiting
        (processed + 1) := by
  have hperm : (r :: (s.kernel ++ s.queued.erase r)).Perm s.outstanding :=
    perm_middle.symm.trans ((perm_cons_erase hr).symm.append_left s.kernel)
  have hnodup : (r :: (s.kernel ++ s.queued.erase r ++ waiting)).Nodup :=
    (hperm.append_right waiting).nodup_iff.mpr h.nodup
  obtain ⟨hout, hnodup⟩ := nodup_cons.mp hnodup
  refine ⟨hperm, hout, h.leads, hnodup, fun x hx => ?_, ?_⟩
  · obtain ⟨hx, hxr⟩ := hvalid x hx
    have hmem := (hperm.append_right waiting).mem_iff.mpr (h.sockets x hx)
    exact (mem_cons.mp hmem).resolve_left hxr
  · have hreqs := h.reqs
    have hlength := hperm.length_eq
    rw [length_cons] at hlength
    change s.reqsPending = (s.kernel ++ s.queued.erase r).length + (processed + 1)
    omega

theorem push (hr : r ∈ s.queued) :
    Circulates { s with
      queued := s.queued.erase r
      nextPending := Function.update s.nextPending r s.pendingAccepts
      pendingAccepts := some r } (r :: waiting) (processed + 1) := by
  obtain ⟨hperm, hout, hdropped⟩ := h.dropped hr fun _ => acceptSocket_of_cleared
  have hlive : (s.kernel ++ s.queued.erase r ++ r :: waiting).Perm (s.outstanding ++ waiting) :=
    perm_middle.trans (hperm.append_right waiting)
  refine ⟨h.leads.push fun hmem => hout (mem_append_right _ hmem), hlive.nodup_iff.mpr h.nodup,
    fun x hx => hlive.mem_iff.mpr (h.sockets x hx), hdropped.reqs⟩

theorem completed (hr : r ∈ s.kernel) :
    Circulates { s with kernel := s.kernel.erase r, queued := s.queued ++ [r] } waiting processed ∧
      (s.kernel.erase r ++ (s.queued ++ [r])).length = s.outstanding.length := by
  have hperm : (s.kernel.erase r ++ (s.queued ++ [r])).Perm s.outstanding := by
    rw [← append_assoc]
    apply (perm_append_singleton r _).trans
    exact (perm_cons_erase hr).symm.append_right s.queued
  have hlive := hperm.append_right waiting
  refine ⟨⟨h.leads, hlive.nodup_iff.mpr h.nodup, fun x hx => hlive.mem_iff.mpr (h.sockets x hx), ?_⟩,
    hperm.length_eq⟩
  change s.reqsPending = (s.kernel.erase r ++ (s.queued ++ [r])).length + processed
  rw [hperm.length_eq]
  exact h.reqs

end

theorem decreasePending (h : Circulates s waiting 1) :
    ∃ t, s.decreasePending = some t ∧ Circulates t waiting t.callback.toNat ∧
      t.outstanding = s.outstanding ∧ t.mode = s.mode := by
  have hreqs := h.reqs
  unfold TcpServer.decreasePending
  rw [if_neg (by omega)]
  refine ⟨_, rfl, { h with reqs := ?_ }, rfl, rfl⟩
  change s.reqsPending - 1 = s.outstanding.length + 0
  omega

theorem length_le (h : Circulates s waiting processed) :
    (s.outstanding ++ waiting).length ≤ uvSimultaneousServerAccepts := by
  have hcard := h.nodup.length_le_card
  rwa [Fintype.card_fin] at hcard

theorem length_eq (h : Circulates s waiting processed)
    (hall : ∀ r, s.acceptSocket r = true ∨ r ∈ s.queued) :
    (s.outstanding ++ waiting).length = uvSimultaneousServerAccepts := by
  have hmem : ∀ r, r ∈ s.outstanding ++ waiting := by
    intro r
    obtain hsocket | hqueued := hall r
    · exact h.sockets r hsocket
    · exact mem_append_left _ (mem_append_right _ hqueued)
  have hcard := toFinset_card_of_nodup h.nodup
  rw [Finset.eq_univ_iff_forall.mpr fun r => mem_toFinset.mpr (hmem r), Finset.card_univ,
    Fintype.card_fin] at hcard
  exact hcard.symm

end Circulates

/-! ### How many requests there are -/

/-- How many requests are out or wait: `n`, as far as the mode says it. -/
structure Counted (m : AcceptMode) (n : ℕ) : Prop where
  unlistened : m.acceptReqs = false → n = 0 ∧ m.listening = false
  closed : m.closing = true → m.listening = false
  stopped : m.acceptReqs = true → m.closing = false → m.listening = false →
    m.singleAccept = false ∧ n < uvSimultaneousServerAccepts
  changing : m.acceptStateChanging = true → m.singleAccept = true ∧ m.acceptReqs = true
  count : m.closing = false → m.acceptStateChanging = true →
    n + m.processedAccepts = uvSimultaneousServerAccepts
  one : m.closing = false → m.acceptReqs = true → m.singleAccept = true →
    m.acceptStateChanging = false → n = 1
  processed : m.acceptStateChanging = false → m.processedAccepts = 0

theorem Counted.drop {m : AcceptMode} {n : ℕ} (h : Counted m (n + 1))
    (hle : n + 1 ≤ uvSimultaneousServerAccepts)
    (hsingle : m.closing = false → m.singleAccept = false) :
    Counted { m with listening := false } n := by
  constructor
  · intro hnone
    cases (h.unlistened hnone).1
  · exact fun _ => rfl
  · exact fun _ hopen _ => ⟨hsingle hopen, hle⟩
  · exact h.changing
  · intro hopen hset
    cases (hsingle hopen).symm.trans (h.changing hset).1
  · intro hopen _ hset
    cases (hsingle hopen).symm.trans hset
  · exact h.processed

theorem Counted.drop_of_stopped {m : AcceptMode} {n : ℕ} (h : Counted m (n + 1))
    (hle : n + 1 ≤ uvSimultaneousServerAccepts) (hstopped : m.listening = false) : Counted m n := by
  have hallocated : m.acceptReqs = true := by
    by_contra hnone
    cases (h.unlistened (by simpa using hnone)).1
  have hdropped := h.drop hle fun hopen => (h.stopped hallocated hopen hstopped).1
  rw [← hstopped] at hdropped
  exact hdropped

def Accounted (s : TcpServer) : Prop :=
  ∃ waiting, Circulates s waiting s.callback.toNat ∧
    Counted s.mode (s.outstanding ++ waiting).length

theorem Circulates.finish {waiting : List AcceptId} (h : Circulates s waiting 1)
    (hcounted : Counted s.mode (s.outstanding ++ waiting).length) :
    ∃ t, s.decreasePending = some t ∧ Accounted t := by
  obtain ⟨t, ht, hcirculates, hout, hmode⟩ := h.decreasePending
  refine ⟨t, ht, waiting, hcirculates, ?_⟩
  rw [hmode, hout]
  exact hcounted

namespace Accounted

section

variable (h : Accounted s)
include h

variable {outcomes : AcceptId → AcceptOutcome}

theorem firstListen
    (hopen : s.closing = false) (houtcomes : ∀ r, outcomes r ≠ .unregistered)
    (hreqs : s.acceptReqs = false) {n : ℕ} (hn : n ≤ uvSimultaneousServerAccepts)
    (hone : s.singleAccept = true → n = 1) :
    ∃ t, ((List.finRange uvSimultaneousServerAccepts).take n).foldlM
        (fun s r => s.uvTcpQueueAccept r (outcomes r))
        { s with listening := true, acceptReqs := true, acceptSocket := fun _ => false } = some t ∧
      Accounted t := by
  obtain ⟨waiting, hcirculates, hcounted⟩ := h
  have hempty : s.outstanding ++ waiting = [] :=
    eq_nil_of_length_eq_zero (hcounted.unlistened hreqs).1
  obtain ⟨hout, rfl⟩ := append_eq_nil_iff.mp hempty
  have hunchanged : s.acceptStateChanging = false := by
    by_contra hset
    cases hreqs.symm.trans (hcounted.changing (by simpa [mode] using hset)).2
  have hrange := (nodup_finRange uvSimultaneousServerAccepts).sublist (take_sublist n _)
  have hlength : ((finRange uvSimultaneousServerAccepts).take n).length = n := by
    rw [length_take, length_finRange]
    exact Nat.min_eq_left hn
  have hnew : ((finRange uvSimultaneousServerAccepts).take n ++ (s.outstanding ++ [])).Nodup := by
    rwa [hempty, append_nil]
  obtain ⟨t, ht, hqueued, hcount, hmode, hcallback⟩ := Circulates.queueAll
    (s := { s with listening := true, acceptReqs := true, acceptSocket := fun _ => false })
    houtcomes { hcirculates with sockets := nofun } rfl hnew
  have hlive : (t.outstanding ++ []).length = n := by
    change _ = s.outstanding.length + _ at hcount
    rw [append_nil, hcount, hout, hlength]
    exact Nat.zero_add n
  refine ⟨t, ht, [], ?_, ?_⟩
  · rw [hcallback]
    exact hqueued
  · rw [hmode, hlive]
    refine ⟨nofun, fun hclosing => ?_, nofun, fun hset => ?_, fun _ hset => ?_,
      fun _ _ hset _ => ?_, hcounted.processed⟩
    · cases hopen.symm.trans hclosing
    · cases hunchanged.symm.trans hset
    · cases hunchanged.symm.trans hset
    · exact hone hset

theorem uvTcpListen {fails : Bool}
    (hopen : s.closing = false) (houtcomes : ∀ r, outcomes r ≠ .unregistered) :
    ∃ t, s.uvTcpListen fails outcomes = some t ∧ Accounted t := by
  unfold TcpServer.uvTcpListen
  dsimp only
  split_ifs with hfails hreqs hsingle
  · exact ⟨s, rfl, h⟩
  · obtain ⟨waiting, hcirculates, hcounted⟩ := h
    refine ⟨_, rfl, waiting, { hcirculates with }, { hcounted with
      unlistened := ?_, closed := ?_, stopped := ?_ }⟩
    · intro hnone
      cases hreqs.symm.trans hnone
    · intro hclosing
      cases hopen.symm.trans hclosing
    · intro _ _ hset
      cases hset
  · exact h.firstListen hopen houtcomes (by simpa using hreqs) (by decide) fun _ => rfl
  · exact h.firstListen hopen houtcomes (by simpa using hreqs) (Nat.le_refl _)
      fun hset => absurd hset hsingle

/-- A request of the stack is taken, and queued again where the mode does not change. -/
theorem uvTcpAccept (houtcome : outcome ≠ .unregistered)
    (hlistens : s.pendingAccepts = none ∨ s.closing = true ∨ s.listening = true) :
    ∃ t, s.uvTcpAccept outcome = some t ∧ Accounted t := by
  obtain ⟨waiting, hcirculates, hcounted⟩ := h
  unfold TcpServer.uvTcpAccept
  cases hpending : s.pendingAccepts with
  | none => exact ⟨s, rfl, waiting, hcirculates, hcounted⟩
  | some r =>
    dsimp only
    obtain ⟨rest, rfl, hr, hpopped⟩ := hcirculates.pop hpending
    have hlength : (s.outstanding ++ r :: rest).length = (s.outstanding ++ rest).length + 1 :=
      perm_middle.length_eq
    rw [hlength] at hcounted
    have hallocated : s.acceptReqs ≠ false := fun hnone => nomatch (hcounted.unlistened hnone).1
    replace hlistens := hlistens.resolve_left (by simp [hpending])
    split_ifs with hsocket hclosing hchanging hsingle hmany
    · exact ⟨s, rfl, r :: rest, hcirculates, hlength ▸ hcounted⟩
    · refine ⟨_, rfl, rest, hpopped, { hcounted with
        unlistened := fun hnone => absurd hnone hallocated, stopped := ?_, count := ?_, one := ?_ }⟩
      · intro _ hopen
        cases hclosing.symm.trans hopen
      · intro hopen
        cases hclosing.symm.trans hopen
      · intro hopen
        cases hclosing.symm.trans hopen
    · obtain ⟨t, ht, hqueued, hperm, hmode, hcallback⟩ :=
        hpopped.uvTcpQueueAccept (hlistens.resolve_left hclosing) hr houtcome
      refine ⟨t, ht, rest, ?_, ?_⟩
      · rw [hcallback]
        exact hqueued
      · rw [hmode, (hperm.append_right rest).length_eq]
        exact hcounted
    · cases hsingle.symm.trans (hcounted.changing (eq_true_of_not_eq_false hchanging)).1
    · refine ⟨_, rfl, rest, { hpopped with }, { hcounted with
        unlistened := fun hnone => absurd hnone hallocated, stopped := ?_, count := ?_, one := ?_,
        processed := fun hset => absurd hset hchanging }⟩
      · intro _ _ hset
        cases (hlistens.resolve_left hclosing).symm.trans hset
      · intro hopen hset
        have hcount := hcounted.count hopen hset
        change (s.outstanding ++ rest).length + 1 + s.processedAccepts = _ at hcount
        change (s.outstanding ++ rest).length + (s.processedAccepts + 1) = _
        omega
      · exact fun _ _ _ hset => absurd hset hchanging
    · have hset : s.acceptStateChanging = true := eq_true_of_not_eq_false hchanging
      have hcount := hcounted.count (eq_false_of_not_eq_true hclosing) hset
      change (s.outstanding ++ rest).length + 1 + s.processedAccepts = _ at hcount
      change ¬ s.processedAccepts + 1 < _ at hmany
      have hempty : s.outstanding ++ rest = [] := eq_nil_of_length_eq_zero (by omega)
      have hlistening : s.listening = true := hlistens.resolve_left hclosing
      have hzero : (0 : AcceptId) ∉ s.outstanding ++ rest := by
        rw [hempty]
        exact not_mem_nil
      obtain ⟨t, ht, hqueued, hperm, hmode, hcallback⟩ := Circulates.uvTcpQueueAccept
        (s := { s.setSocket r false with
          pendingAccepts := s.nextPending r
          nextPending := Function.update s.nextPending r none
          processedAccepts := 0 }) { hpopped with } hlistening hzero houtcome
      have hone : (t.outstanding ++ rest).length = 1 := by
        rw [(hperm.append_right rest).length_eq]
        exact congrArg (·.length + 1) hempty
      refine ⟨_, congrArg (Option.map _) ht, rest, ?_, ?_⟩
      · have hsame : t.callback = s.callback := hcallback
        rw [← hsame] at hqueued
        exact { hqueued with }
      · change Counted { t.mode with acceptStateChanging := false, singleAccept := true }
          (t.outstanding ++ rest).length
        rw [hmode, hone]
        refine ⟨fun hnone => absurd hnone hallocated, hcounted.closed, fun _ _ habs => ?_, nofun,
          fun _ => nofun, fun _ _ _ _ => rfl, fun _ => rfl⟩
        cases hlistening.symm.trans habs

theorem uvProcessTcpAcceptReq {accepted : Bool} (hr : r ∈ s.queued)
    (hidle : s.callback = false) (houtcome : outcome ≠ .unregistered)
    (hkept : s.acceptSocket r = true ∨ s.singleAccept = false ∨ s.closing = true) :
    ∃ t, s.uvProcessTcpAcceptReq r accepted outcome = some t ∧ Accounted t := by
  obtain ⟨waiting, hcirculates, hcounted⟩ := h
  rw [hidle] at hcirculates
  obtain ⟨hperm, hout, hcleared⟩ := hcirculates.dropped hr fun _ => acceptSocket_of_cleared
  have hlength : (s.outstanding ++ waiting).length =
      (s.kernel ++ s.queued.erase r ++ waiting).length + 1 :=
    (hperm.append_right waiting).length_eq.symm
  have hle := hcirculates.length_le
  have hpushed := hcirculates.push hr
  rw [hlength] at hcounted hle
  unfold TcpServer.uvProcessTcpAcceptReq
  dsimp only
  by_cases hsocket : s.acceptSocket r = false
  · rw [if_pos hsocket]
    have hsingle : s.closing = false → s.singleAccept = false := by
      intro hopen
      obtain hset | hnone | hset := hkept
      · cases hsocket.symm.trans hset
      · exact hnone
      · cases hopen.symm.trans hset
    have hvalid : ∀ x, s.acceptSocket x = true → s.acceptSocket x = true ∧ x ≠ r := by
      rintro x hx
      exact ⟨hx, fun heq => by cases hsocket.symm.trans (heq ▸ hx)⟩
    obtain ⟨-, -, hdropped⟩ := hcirculates.dropped hr hvalid
    have hstopped := hcounted.drop hle hsingle
    split_ifs with hlistening
    · exact ⟨_, rfl, waiting, { hdropped with }, hstopped⟩
    · exact hdropped.finish (hcounted.drop_of_stopped hle (eq_false_of_not_eq_true hlistening))
  · rw [if_neg hsocket]
    split_ifs with haccepted hlistening
    · refine ⟨_, rfl, r :: waiting, { hpushed with }, ?_⟩
      change Counted s.mode (s.kernel ++ s.queued.erase r ++ r :: waiting).length
      rw [perm_middle.length_eq]
      exact hcounted
    · obtain ⟨t, ht, hqueued, hperm', hmode, hcallback⟩ :=
        hcleared.uvTcpQueueAccept hlistening hout houtcome
      obtain ⟨u, hu, hdone⟩ := hqueued.finish (by
        rw [hmode, (hperm'.append_right waiting).length_eq]
        exact hcounted)
      exact ⟨u, Option.bind_eq_some_iff.mpr ⟨t, ht, hu⟩, hdone⟩
    · exact hcleared.finish (hcounted.drop_of_stopped hle (eq_false_of_not_eq_true hlistening))

theorem uvTcpSimultaneousAccepts {enable : Bool}
    (hkept : enable = true ∨ s.singleAccept = true ∨ s.acceptReqs = false ∨ s.closing = true ∨
      ∀ r, s.acceptSocket r = true ∨ r ∈ s.queued) :
    Accounted (s.uvTcpSimultaneousAccepts enable) := by
  unfold TcpServer.uvTcpSimultaneousAccepts
  by_cases hsame : (enable = true ∧ s.singleAccept = false) ∨
    (enable = false ∧ s.singleAccept = true)
  · rw [if_pos hsame]
    exact h
  rw [if_neg hsame]
  cases enable with
  | true => exact h
  | false =>
    obtain ⟨waiting, hcirculates, hcounted⟩ := h
    have hmany : s.singleAccept = false := by
      by_contra hset
      exact hsame (.inr ⟨rfl, by simpa using hset⟩)
    have hunchanged : s.acceptStateChanging = false := by
      by_contra hset
      cases hmany.symm.trans (hcounted.changing (eq_true_of_not_eq_false hset)).1
    have hprocessed := hcounted.processed hunchanged
    have hfull : s.acceptReqs = true → s.closing = false →
        (s.outstanding ++ waiting).length = uvSimultaneousServerAccepts := by
      intro hallocated hopen
      obtain hset | hset | hset | hset | hall := hkept
      · cases hset
      · cases hmany.symm.trans hset
      · cases hallocated.symm.trans hset
      · cases hopen.symm.trans hset
      · exact hcirculates.length_eq hall
    rw [if_neg nofun, if_neg (by simp [hunchanged])]
    dsimp only
    split_ifs with hlistening
    · have hallocated : s.acceptReqs = true := by
        by_contra hset
        cases hlistening.symm.trans (hcounted.unlistened (eq_false_of_not_eq_true hset)).2
      refine ⟨waiting, { hcirculates with }, { hcounted with
        stopped := ?_, changing := fun _ => ⟨rfl, hallocated⟩, count := ?_, one := nofun,
        processed := nofun }⟩
      · intro _ _ hset
        cases hlistening.symm.trans hset
      · intro hopen _
        change (s.outstanding ++ waiting).length + s.processedAccepts = _
        rw [hfull hallocated hopen, show s.processedAccepts = 0 from hprocessed]
    · have hstopped : s.listening = false := eq_false_of_not_eq_true hlistening
      have hnever : s.acceptReqs = true → s.closing = false → False := by
        intro hallocated hopen
        have hlt := (hcounted.stopped hallocated hopen hstopped).2
        rw [hfull hallocated hopen] at hlt
        exact Nat.lt_irrefl _ hlt
      refine ⟨waiting, { hcirculates with }, { hcounted with
        stopped := ?_, changing := ?_, one := ?_ }⟩
      · exact fun hallocated hopen => (hnever hallocated hopen).elim
      · intro hset
        cases hunchanged.symm.trans hset
      · exact fun hopen hallocated => (hnever hallocated hopen).elim

theorem uvTcpClose (hopen : s.closing = false) (cancelled : Bool) :
    ∃ t, s.uvTcpClose cancelled = some t ∧ Accounted t := by
  obtain ⟨waiting, hcirculates, hcounted⟩ := h
  unfold TcpServer.uvTcpClose
  rw [if_neg (by simp [hopen])]
  refine ⟨_, rfl, waiting, { hcirculates with sockets := ?_ }, ?_⟩
  · intro r hr
    dsimp only at hr
    apply hcirculates.sockets r
    split_ifs at hr
    · exact (and_eq_true_iff.mp hr).1
    · exact hr
  · exact { hcounted with
      unlistened := fun hnone => ⟨(hcounted.unlistened hnone).1, rfl⟩, closed := fun _ => rfl,
      stopped := nofun, count := nofun, one := nofun }

theorem next (henabled : s.Enabled e) (hcareful : Careful s e) :
    ∃ t, s.next e = some t ∧ Accounted t := by
  cases e with
  | listen fails outcomes => exact h.uvTcpListen henabled hcareful
  | accept outcome => exact h.uvTcpAccept hcareful.1 hcareful.2
  | simultaneousAccepts enable => exact ⟨_, rfl, h.uvTcpSimultaneousAccepts hcareful⟩
  | close cancelled => exact h.uvTcpClose henabled cancelled
  | completed r =>
    obtain ⟨waiting, hcirculates, hcounted⟩ := h
    obtain ⟨hcompleted, hlength⟩ := hcirculates.completed henabled
    refine ⟨_, rfl, waiting, { hcompleted with }, ?_⟩
    change Counted s.mode (s.kernel.erase r ++ (s.queued ++ [r]) ++ waiting).length
    rw [length_append, hlength, ← length_append]
    exact hcounted
  | process r accepted outcome =>
    exact h.uvProcessTcpAcceptReq henabled.1 henabled.2 hcareful.1 hcareful.2
  | returned =>
    obtain ⟨waiting, hcirculates, hcounted⟩ := h
    have hone : s.callback = true := henabled
    rw [hone] at hcirculates
    exact hcirculates.finish hcounted

end

theorem init (h : Init s) : Accounted s := by
  have hout : s.outstanding = [] := by
    rw [outstanding, h.kernel, h.queued]
    rfl
  refine ⟨[], ⟨?_, ?_, ?_, ?_⟩, ?_⟩
  · rw [h.pendingAccepts]
    exact .nil
  · rw [hout]
    exact nodup_nil
  · intro r hr
    cases (h.acceptSocket r).symm.trans hr
  · rw [hout, h.callback]
    exact h.reqsPending
  · rw [hout, mode, h.acceptReqs, h.listening, h.closing, h.singleAccept, h.acceptStateChanging,
      h.processedAccepts]
    exact ⟨fun _ => ⟨rfl, rfl⟩, nofun, nofun, nofun, nofun, nofun, fun _ => rfl⟩

theorem of_reachable (h : Reachable Init (Guarded Careful Step) s) : Accounted s :=
  h.invariant_of_guarded (fun _ => init) fun _ _ => next

end Accounted

/-- No request is out or waits twice, so that none is queued while it does, and it is queued where
the server listens, for no assertion fails. While the accept state of a server changes, the requests
that are out, wait or are done are those that were queued at first, and after that there is one. -/
theorem tcpServer_accounted (h : Reachable Init (Guarded Careful Step) s) :
    ∃ waiting, Leads s.nextPending s.pendingAccepts waiting ∧
      (s.outstanding ++ waiting).Nodup ∧
      (s.closing = false → s.acceptStateChanging = true →
        s.outstanding.length + waiting.length + s.processedAccepts = uvSimultaneousServerAccepts) ∧
      (s.closing = false → s.acceptReqs = true → s.singleAccept = true →
        s.acceptStateChanging = false → s.outstanding.length + waiting.length = 1) ∧
      ∀ e, s.Enabled e → Careful s e → ∃ t, s.next e = some t := by
  have hs := Accounted.of_reachable h
  obtain ⟨waiting, hcirculates, hcounted⟩ := id hs
  have hcount := hcounted.count
  have hone := hcounted.one
  rw [List.length_append] at hcount hone
  refine ⟨waiting, hcirculates.leads, hcirculates.nodup, hcount, hone,
    fun e henabled hcareful => ?_⟩
  obtain ⟨t, ht, -⟩ := hs.next henabled hcareful
  exact ⟨t, ht⟩

/-- A handle that has not listened. -/
def fresh : TcpServer where
  acceptReqs := false
  listening := false
  closing := false
  singleAccept := false
  acceptStateChanging := false
  sharedTcpSocket := false
  syncBypass := false
  processedAccepts := 0
  reqsPending := 0
  pendingAccepts := none
  nextPending := fun _ => none
  acceptSocket := fun _ => false
  kernel := []
  queued := []
  callback := false

theorem fresh_init : Init fresh :=
  ⟨rfl, rfl, rfl, rfl, rfl, rfl, rfl, rfl, fun _ => rfl, rfl, rfl, rfl⟩

/-- The mode is changed, and a connection is accepted. -/
def changingRun : Option TcpServer :=
  [Event.listen false fun _ => .pending, .simultaneousAccepts false, .completed 0,
    .process 0 true .pending, .accept .pending, .returned].foldlM
    (fun s e => if Careful s e then s.step e else none) fresh

theorem changingRun_isSome : changingRun.isSome = true := by
  rfl

theorem tcpServer_accounted_changing : ∃ waiting : List AcceptId,
    (changingRun.get changingRun_isSome).outstanding.length + waiting.length +
      (changingRun.get changingRun_isSome).processedAccepts = 32 := by
  have hrun : Reachable Init (Guarded Careful Step) (changingRun.get changingRun_isSome) :=
    .of_foldlM_if (.init fresh_init) (Option.some_get changingRun_isSome).symm
  obtain ⟨waiting, -, -, hcount, -⟩ := tcpServer_accounted hrun
  exact ⟨waiting, hcount (by decide) (by decide)⟩

/-- The first request has no socket, and the second accepts a connection. -/
def stoppedRun : Option TcpServer :=
  [Event.listen false fun r => if r = 0 then .failed else .pending, .completed 1,
    .process 0 true .pending, .returned,
      .process 1 true .pending].foldlM (fun s e => s.step e) fresh

theorem stoppedRun_isSome : stoppedRun.isSome = true := by
  rfl

def droppedRun : Option TcpServer :=
  [Event.listen false fun _ => .pending, .simultaneousAccepts false, .completed 0,
    .process 0 false .failed, .process 0 true .pending].foldlM (fun s e => s.step e) fresh

theorem droppedRun_isSome : droppedRun.isSome = true := by
  rfl

/-- `uv_accept` queues a request of a server that does not listen, and a request is missing while
the accept state changes. -/
theorem accept_after_error :
    (∃ s, Reachable Init Step s ∧ s.Enabled (.accept .pending) ∧ s.next (.accept .pending) = none) ∧
    ∃ s, Reachable Init Step s ∧ s.closing = false ∧ s.acceptStateChanging = true ∧
      s.pendingAccepts = none ∧ s.outstanding.length + s.processedAccepts = 31 := by
  constructor
  · refine ⟨stoppedRun.get stoppedRun_isSome, ?_, trivial, ?_⟩
    · exact .of_foldlM (.init fresh_init) (Option.some_get stoppedRun_isSome).symm
    · rw [← Option.isNone_iff_eq_none]
      decide
  · refine ⟨droppedRun.get droppedRun_isSome, ?_, by decide, by decide,
      by decide, by decide⟩
    exact .of_foldlM (.init fresh_init) (Option.some_get droppedRun_isSome).symm

end LibuvWorks.Win.TcpServer
