import LibuvWorks.Win.PipeHandle

/-!
# Every handle of a pipe is closed once

A pipe that is not a server owns `handle->handle`, a server the handles of its accept requests, and
the connect thread what it has opened. `uv_pipe_cleanup` closes the first only under
`UV_HANDLE_CONNECTION`, and nobody closes the last if `uv_set_pipe_handle` fails.
-/
namespace LibuvWorks.Win

open Custody Transition List Option

namespace PipeHandle

variable {n : ℕ} {s t : PipeHandle n} {e : Event n} {h : ℕ}

def threadHandles (threads : List (ConnectThread × Bool)) : List ℕ :=
  threads.filterMap fun thread => thread.1.handle

def held (s : PipeHandle n) : List ℕ :=
  (if s.pipeserver then slots s.acceptReqs else s.handle.toList) ++ threadHandles s.threads

/-- What is asked of the user and of the system: the pipe is not closed while a connect thread runs,
or with a handle that is not a connection yet; nothing frees the name while a thread runs;
`uv_set_pipe_handle` succeeds in the thread; and no handle is put over another one. -/
def Careful (s : PipeHandle n) : Event n → Prop
  | .connect _ .fails => s.threads = []
  | .connect _ (.opens call) =>
    s.pipeserver = false ∧ (s.handle ≠ none ∨ call.associated = false → s.threads = [])
  | .bind .fails => s.connection = false ∧ (s.bound = false → s.threads = [])
  | .bind (.creates associated) =>
    s.connection = false ∧
      (s.bound = false → s.handle ≠ none ∨ associated = false → s.threads = [])
  | .listen _ => s.listening = false
  | .accepted => s.handle = none
  | .close =>
    s.threads = [] ∧ (s.handle = none ∨ s.connection = true ∨ s.pipeserver = true)
  | .threadSets _ _ call => s.pipeserver = false ∧ s.handle = none ∧ call.associated = true
  | _ => True

instance (s : PipeHandle n) (e : Event n) : Decidable (Careful s e) := by
  induction e using Event.casesOn
  case connect call =>
    induction call using ConnectCall.casesOn <;> dsimp only [Careful] <;> infer_instance
  case bind call => induction call using BindCall.casesOn <;> dsimp only [Careful] <;> infer_instance
  all_goals dsimp only [Careful] <;> infer_instance

/-- Who owns what: a server has no connection, only a connection is closed by a timer or after a
shutdown, and a pipe that is closing has nothing left. -/
structure Owned (s : PipeHandle n) : Prop where
  accounts : Accounts s.opened s.closes s.given s.held
  plain : s.pipeserver = false → s.acceptReqs = fun _ => none
  server : s.pipeserver = s.bound
  listening : s.listening = true → s.bound = true
  unconnected : s.pipeserver = true → s.connection = false
  closer : 0 < s.shutdowns ∨ s.eofTimer = true → s.connection = true
  closing : s.closing = true →
    s.threads = [] ∧ s.handle = none ∧ s.acceptReqs = (fun _ => none)
  closed : s.closed = true → s.closing = true
  name : s.threads ≠ [] → s.name = true
  misused : s.misused = false

/-! ### What is held -/

theorem accounts_server (hserver : s.pipeserver = true) :
    Accounts s.opened s.closes s.given s.held ↔
      Accounts s.opened s.closes s.given (slots s.acceptReqs ++ threadHandles s.threads) := by
  rw [held, if_pos hserver]

theorem accounts_plain (hplain : s.pipeserver = false) :
    Accounts s.opened s.closes s.given s.held ↔
      Accounts s.opened s.closes s.given (s.handle.toList ++ threadHandles s.threads) := by
  rw [held, hplain]
  exact Iff.rfl

variable {threads : List (ConnectThread × Bool)}

theorem threadHandles_cons {thread : ConnectThread}
    (cb : Bool) : threadHandles ((thread, cb) :: threads) =
      thread.handle.toList ++ threadHandles threads := by
  cases thread <;> rfl

theorem threadHandles_perm {thread : ConnectThread}
    {cb : Bool} (hmem : (thread, cb) ∈ threads) : (threadHandles threads).Perm
      (thread.handle.toList ++ threadHandles (threads.erase (thread, cb))) := by
  rw [← threadHandles_cons cb]
  exact (perm_cons_erase hmem).filterMap _

theorem uvSetPipeHandle_cases (s : PipeHandle n) (h : ℕ) (call : OpenCall) :
    (s.uvSetPipeHandle h call = none ∧
      (s.pipeserver = false ∧ s.handle ≠ none ∨ call.associated = false)) ∨
    ((s.pipeserver = true ∨ s.handle = none) ∧ ∃ readable writable,
      s.uvSetPipeHandle h call = some { s with handle := some h, readable, writable }) := by
  unfold uvSetPipeHandle
  by_cases hbusy : s.pipeserver = false ∧ s.handle ≠ none
  · rw [if_pos hbusy]
    exact .inl ⟨rfl, .inl hbusy⟩
  · rw [if_neg hbusy]
    cases hcall : call.associated with
    | false => exact .inl ⟨rfl, .inr rfl⟩
    | true =>
      refine .inr ⟨?_, _, _, rfl⟩
      by_contra hne
      rw [not_or] at hne
      exact hbusy ⟨by simpa using hne.1, hne.2⟩

theorem Owned.hold (hs : Owned s) (hclosing : s.closing = false) (hplain : s.pipeserver = false)
    (hempty : s.handle = none) (readable writable : Bool) :
    Owned { s with opened := s.opened + 1, handle := some s.opened, readable, writable } := by
  have haccounts := (accounts_plain hplain).mp hs.accounts
  rw [hempty] at haccounts
  refine { hs with
    accounts := (accounts_plain (by exact hplain)).mpr haccounts.acquire, closing := fun habs => ?_ }
  cases hclosing.symm.trans habs

theorem Owned.decrease (hs : Owned s) (ht : s.decreasePendingReqCount = some t) : Owned t := by
  unfold decreasePendingReqCount at ht
  split_ifs at ht
  cases ht
  exact { hs with }

/-! ### Connecting -/

theorem Owned.uvPipeConnect {cb : Bool} {call : ConnectCall} (hs : Owned s)
    (hclosing : s.closing = false) (hcareful : Careful s (.connect cb call)) :
    Owned (s.uvPipeConnect cb call) := by
  unfold PipeHandle.uvPipeConnect
  cases call with
  | fails => exact { hs with name := fun hne => absurd hcareful hne }
  | busy =>
    refine { hs with closing := fun habs => ?_, name := fun _ => rfl }
    cases hclosing.symm.trans habs
  | opens call =>
    obtain ⟨hplain, hthreads⟩ := hcareful
    have hnamed : Owned { s with name := true, reqsPending := s.reqsPending + 1 } :=
      { hs with name := fun _ => rfl }
    dsimp only
    rcases uvSetPipeHandle_cases { s with
        name := true, reqsPending := s.reqsPending + 1, opened := s.opened + 1 } s.opened call with
      ⟨hset, hfails⟩ | ⟨hempty, readable, writable, hset⟩
    · rw [hset]
      have hnone : s.threads = [] := by
        apply hthreads
        rcases hfails with hbusy | hcall
        · exact .inl hbusy.2
        · exact .inr hcall
      exact { hs with accounts := hs.accounts.discard, name := fun hne => absurd hnone hne }
    · rw [hset]
      have hheld := hnamed.hold hclosing hplain
        (hempty.resolve_left (by simp [hplain])) readable writable
      exact { hheld with }

theorem Owned.thread {thread : ConnectThread} {cb : Bool} (hs : Owned s)
    (hmem : (thread, cb) ∈ s.threads) (thread' : ConnectThread)
      (hsame : thread'.handle = thread.handle) :
    Owned { s with
      misused := s.misused || !s.name, threads := (thread', cb) :: s.threads.erase (thread, cb) } := by
  have hne : s.threads ≠ [] := ne_nil_of_mem hmem
  have hperm := threadHandles_perm hmem
  rw [← hsame, ← threadHandles_cons cb] at hperm
  refine { hs with
    accounts := hs.accounts.perm (hperm.append_left _), closing := fun hclosing => ?_,
    name := fun _ => hs.name hne, misused := ?_ }
  · exact absurd (hs.closing hclosing).1 hne
  · rw [hs.misused, hs.name hne]
    rfl

theorem Owned.threadReturns {thread : ConnectThread} {cb success : Bool} (hs : Owned s)
    (hmem : (thread, cb) ∈ s.threads) (hnone : thread.handle = none) :
    Owned ({ s with
      misused := s.misused || !s.name
      threads := s.threads.erase (thread, cb) }.postConnect success cb) := by
  have hne : s.threads ≠ [] := ne_nil_of_mem hmem
  have hperm := threadHandles_perm hmem
  rw [hnone] at hperm
  refine { hs with
    accounts := hs.accounts.perm (hperm.append_left _), closing := fun hclosing => ?_,
    name := fun _ => hs.name hne, misused := ?_ }
  · exact absurd (hs.closing hclosing).1 hne
  · rw [PipeHandle.postConnect, hs.misused, hs.name hne]
    rfl

theorem Owned.threadOpens {cb opens : Bool} (hs : Owned s) (hmem : (.available, cb) ∈ s.threads) :
    Owned (s.threadOpens cb opens) := by
  have hne : s.threads ≠ [] := ne_nil_of_mem hmem
  unfold PipeHandle.threadOpens PipeHandle.readName
  dsimp only
  cases opens with
  | false => exact hs.thread hmem .waits rfl
  | true =>
    have hgone := hs.thread hmem .waits rfl
    have hmiddle : ∀ hs : List ℕ,
        (s.opened :: (hs ++ threadHandles (s.threads.erase (.available, cb)))).Perm
        (hs ++ threadHandles ((.opened s.opened, cb) :: s.threads.erase (.available, cb))) :=
      fun hs => perm_middle.symm
    rw [if_pos rfl]
    refine { hgone with
      accounts := hgone.accounts.acquire.perm (hmiddle _), closing := fun hclosing => ?_
      name := fun _ => hs.name hne }
    exact absurd (hs.closing hclosing).1 hne

theorem Owned.threadSets {cb : Bool} {call : OpenCall} (hs : Owned s)
    (hmem : (.opened h, cb) ∈ s.threads) (hcareful : Careful s (.threadSets cb h call)) :
    Owned (s.threadSets cb h call) := by
  obtain ⟨hplain, hempty, hcall⟩ := hcareful
  have hne : s.threads ≠ [] := ne_nil_of_mem hmem
  unfold PipeHandle.threadSets
  rcases uvSetPipeHandle_cases { s with threads := s.threads.erase (.opened h, cb) } h call with
    ⟨hset, hfails⟩ | ⟨-, readable, writable, hset⟩
  · rcases hfails with hbusy | hfails
    · exact absurd hempty hbusy.2
    · cases hcall.symm.trans hfails
  · dsimp only
    rw [hset]
    have haccounts := (accounts_plain hplain).mp hs.accounts
    rw [hempty] at haccounts
    refine { hs with
      accounts := (accounts_plain (by exact hplain)).mpr (haccounts.perm (threadHandles_perm hmem))
      closing := fun hclosing => ?_, name := fun _ => hs.name hne }
    exact absurd (hs.closing hclosing).1 hne

theorem Owned.uvProcessPipeConnectReq {success cb : Bool} (hs : Owned s)
    (ht : s.uvProcessPipeConnectReq success cb = some t) : Owned t := by
  unfold PipeHandle.uvProcessPipeConnectReq at ht
  dsimp only at ht
  split_ifs at ht with hcb hsuccess hserver
  · cases ht
    refine { hs with unconnected := fun habs => ?_, closer := fun _ => rfl }
    exact absurd habs hserver
  · cases ht
    exact { hs with }
  · apply Owned.decrease ?_ ht
    exact { hs with }

/-! ### Serving -/

theorem Owned.uvPipeBind {call : BindCall} (hs : Owned s) (hclosing : s.closing = false)
    (hcareful : Careful s (.bind call)) : Owned (s.uvPipeBind call) := by
  unfold PipeHandle.uvPipeBind
  by_cases hbound : s.bound = true
  · rw [if_pos hbound]
    exact hs
  · have hbound : s.bound = false := by simpa using hbound
    have hplain := hs.server.trans hbound
    have haccounts := (accounts_plain hplain).mp hs.accounts
    rw [if_neg (by simp [hbound])]
    cases call with
    | fails =>
      refine { hs with
        accounts := (accounts_plain (by exact hplain)).mpr haccounts, plain := fun _ => rfl
        closing := fun habs => ?_, name := fun hne => absurd (hcareful.2 hbound) hne }
      cases hclosing.symm.trans habs
    | creates associated =>
      obtain ⟨hconnection, hthreads⟩ := hcareful
      dsimp only
      rcases uvSetPipeHandle_cases { s with
          acceptReqs := fun _ => none, name := true, opened := s.opened + 1 } s.opened
          ⟨associated, false, false⟩ with ⟨hset, hfails⟩ | ⟨hempty, readable, writable, hset⟩
      · rw [hset]
        have hnone : s.threads = [] := by
          apply hthreads hbound
          rcases hfails with hbusy | hcall
          · exact .inl hbusy.2
          · exact .inr hcall
        refine { hs with
          accounts := (accounts_plain (by exact hplain)).mpr haccounts.discard
          plain := fun _ => rfl, closing := fun habs => ?_, name := fun hne => absurd hnone hne }
        cases hclosing.symm.trans habs
      · rw [hset]
        have hempty : s.handle = none := hempty.resolve_left (by simp [hplain])
        rw [hempty, toList_none, ← slots_none (n := n + 1)] at haccounts
        refine { hs with
          accounts := (accounts_server rfl).mpr (haccounts.fill rfl), plain := nofun
          server := rfl, listening := fun _ => rfl, unconnected := fun _ => hconnection
          closing := fun habs => ?_, name := fun _ => rfl }
        cases hclosing.symm.trans habs

theorem update_none {f : Fin (n + 1) → Option ℕ} (hf : f = fun _ => none) (i : Fin (n + 1)) :
    Function.update f i none = fun _ => none := by
  rw [hf]
  exact Function.update_eq_self i _

theorem Owned.closeReq (hs : Owned s) (i : Fin (n + 1)) : Owned (s.closeReq i) := by
  refine { hs with
    accounts := ?_, plain := fun hplain => update_none (hs.plain hplain) i, closing := fun hclosing => ?_ }
  · by_cases hserver : s.pipeserver = true
    · rw [accounts_server (by exact hserver)]
      exact ((accounts_server hserver).mp hs.accounts).dropSlot i
    · have hplain : s.pipeserver = false := by simpa using hserver
      rw [accounts_plain (by exact hplain), PipeHandle.closeReq, hs.plain hplain]
      exact (accounts_plain hplain).mp hs.accounts
  · obtain ⟨hthreads, hempty, hreqs⟩ := hs.closing hclosing
    exact ⟨hthreads, hempty, update_none hreqs i⟩

theorem Owned.giveReq (hs : Owned s) (i : Fin (n + 1)) : Owned { s with
    given := (s.acceptReqs i).toList ++ s.given
    acceptReqs := Function.update s.acceptReqs i none } := by
  refine { hs with
    accounts := ?_, plain := fun hplain => update_none (hs.plain hplain) i, closing := fun hclosing => ?_ }
  · by_cases hserver : s.pipeserver = true
    · rw [accounts_server (by exact hserver)]
      exact ((accounts_server hserver).mp hs.accounts).giveSlot i
    · have hplain : s.pipeserver = false := by simpa using hserver
      rw [accounts_plain (by exact hplain)]
      dsimp only
      rw [hs.plain hplain]
      exact (accounts_plain hplain).mp hs.accounts
  · obtain ⟨hthreads, hempty, hreqs⟩ := hs.closing hclosing
    exact ⟨hthreads, hempty, update_none hreqs i⟩

variable {i : Fin (n + 1)}

theorem Owned.connectNamedPipe {result : ConnectResult} (hs : Owned s) :
    Owned (s.connectNamedPipe i result) := by
  cases result with
  | pending | connected => exact { hs with }
  | fails => exact { hs.closeReq i with }

theorem closing_connectNamedPipe {result : ConnectResult} :
    (s.connectNamedPipe i result).closing = s.closing := by
  cases result <;> rfl

/-- A request of an open server is queued, with a new handle unless it is the first. -/
theorem Owned.uvPipeQueueAccept {first : Bool} {calls : InstanceCalls}
    (hs : Owned s) (hclosing : s.closing = false)
    (ht : s.uvPipeQueueAccept i first calls = some t) : Owned t ∧ t.closing = false := by
  unfold PipeHandle.uvPipeQueueAccept at ht
  split_ifs at ht with hlistening hfirst hempty hfull hcreated
  · cases ht
    exact ⟨hs.connectNamedPipe, closing_connectNamedPipe.trans hclosing⟩
  · cases ht
    exact ⟨{ hs with }, hclosing⟩
  · have hserver := hs.server.trans (hs.listening (by simpa using hlistening))
    have haccounts := ((accounts_server hserver).mp hs.accounts).fill (not_not.mp hfull)
    have hfilled (handle : Option ℕ) (readable writable : Bool) : Owned { s with
        opened := s.opened + 1, acceptReqs := Function.update s.acceptReqs i (some s.opened)
        handle, readable, writable } := by
      refine { hs with
        accounts := (accounts_server (by exact hserver)).mpr haccounts
        plain := fun habs => ?_, closing := fun habs => ?_ }
      · cases hserver.symm.trans habs
      · cases hclosing.symm.trans habs
    dsimp only at ht
    rcases uvSetPipeHandle_cases { s with
        opened := s.opened + 1, acceptReqs := Function.update s.acceptReqs i (some s.opened) }
        s.opened ⟨calls.associated, false, false⟩ with ⟨hset, -⟩ | ⟨-, readable, writable, hset⟩
    · rw [hset] at ht
      cases ht
      exact ⟨{ (hfilled s.handle s.readable s.writable).closeReq i with }, hclosing⟩
    · rw [hset] at ht
      cases ht
      exact ⟨(hfilled _ _ _).connectNamedPipe, closing_connectNamedPipe.trans hclosing⟩

theorem Owned.uvPipeListen {calls : Fin (n + 1) → InstanceCalls} (hs : Owned s)
    (hclosing : s.closing = false) (ht : s.uvPipeListen calls = some t) : Owned t := by
  unfold PipeHandle.uvPipeListen at ht
  dsimp only at ht
  split_ifs at ht with hbound hempty
  · cases ht
    exact hs
  · have hall : ∀ (is : List (Fin (n + 1))) (u : PipeHandle n), Owned u → u.closing = false →
        is.foldlM (fun s i => s.uvPipeQueueAccept i (i = 0) (calls i)) u = some t → Owned t := by
      intro is
      induction is with
      | nil =>
        intro u hu _ hrun
        cases hrun
        exact hu
      | cons i is ih =>
        intro u hu hopen hrun
        rw [foldlM_cons] at hrun
        obtain ⟨v, hqueue, hrun⟩ := bind_eq_some_iff.mp hrun
        obtain ⟨hv, hopen⟩ := hu.uvPipeQueueAccept hopen hqueue
        exact ih v hv hopen hrun
    refine hall _ _ ?_ (by exact hclosing) ht
    exact { hs with listening := fun _ => by simpa using hbound }

theorem Owned.uvPipeAccept {calls : InstanceCalls} (hs : Owned s)
    (ht : s.uvPipeAccept calls = some t) : Owned t := by
  unfold PipeHandle.uvPipeAccept at ht
  split at ht
  · cases ht
    exact hs
  · rename_i i rest hpending
    have hgiven : Owned { s with
        given := (s.acceptReqs i).toList ++ s.given
        acceptReqs := Function.update s.acceptReqs i none
        pendingAccepts := rest } := { hs.giveReq i with }
    dsimp only at ht
    split_ifs at ht with hclosing
    · cases ht
      exact hgiven
    · exact (hgiven.uvPipeQueueAccept (by simpa using hclosing) ht).1

theorem Owned.uvPipeAccepted (hs : Owned s) (hclosing : s.closing = false)
    (hempty : s.handle = none) (ht : s.uvPipeAccepted = some t) : Owned t := by
  unfold PipeHandle.uvPipeAccepted at ht
  split_ifs at ht with hserver
  cases ht
  have hplain : s.pipeserver = false := by simpa using hserver
  refine { hs.hold hclosing hplain hempty true true with
    unconnected := fun habs => ?_, closer := fun _ => rfl }
  exact absurd habs hserver

theorem Owned.uvProcessPipeAcceptReq {success : Bool} {calls : InstanceCalls}
    (hs : Owned s) (ht : s.uvProcessPipeAcceptReq i success calls = some t) : Owned t := by
  unfold PipeHandle.uvProcessPipeAcceptReq at ht
  dsimp only at ht
  split_ifs at ht with hclosing
  · apply Owned.decrease ?_ ht
    exact { hs with }
  · cases ht
    exact { hs with }
  · obtain ⟨u, hqueue, hu⟩ := bind_eq_some_iff.mp ht
    have hclosed : Owned ({ s with queued := s.queued.erase (i, success) }.closeReq i) :=
      { hs.closeReq i with }
    have hopen : s.closing = false := by simpa using hclosing
    exact (hclosed.uvPipeQueueAccept hopen hqueue).1.decrease hu

/-! ### Shutting down and closing -/

theorem Owned.closePipe (hs : Owned s) (hconnection : s.connection = true) : Owned s.closePipe := by
  have hplain : s.pipeserver = false := by
    by_contra habs
    cases (hs.unconnected (by simpa using habs)).symm.trans hconnection
  have haccounts := (accounts_plain hplain).mp hs.accounts
  refine { hs with
    accounts := (accounts_plain (by exact hplain)).mpr haccounts.release
    closing := fun hclosing => ?_ }
  obtain ⟨hthreads, -, hreqs⟩ := hs.closing hclosing
  exact ⟨hthreads, rfl, hreqs⟩

theorem Owned.uvProcessPipeShutdownReq (hs : Owned s) (hshutdowns : 0 < s.shutdowns)
    (ht : s.uvProcessPipeShutdownReq = some t) : Owned t := by
  have hconnection := hs.closer (.inl hshutdowns)
  unfold PipeHandle.uvProcessPipeShutdownReq at ht
  dsimp only at ht
  split_ifs at ht
  · cases ht
    exact { hs with closer := fun _ => hconnection }
  · cases ht
    have hclosed := hs.closePipe hconnection
    exact { hclosed with closer := fun _ => hconnection }

theorem Owned.uvPipeReadEof (hs : Owned s) : Owned s.uvPipeReadEof := by
  refine { hs with closer := fun habs => ?_ }
  exact hs.closer (habs.imp_right nofun)

theorem Owned.uvPipeEndgame {flushed : Bool} (hs : Owned s)
    (ht : s.uvPipeEndgame flushed = some t) :
    Owned t := by
  unfold PipeHandle.uvPipeEndgame at ht
  dsimp only at ht
  split_ifs at ht with hshutdown hclosing hflushed hclosing
  · cases ht
    exact { hs with }
  · cases ht
    exact { hs with closer := fun _ => hshutdown.1 }
  · cases ht
    exact { hs with }
  · cases ht
    exact { hs with closed := fun _ => hclosing.1 }
  · cases ht
    exact { hs with }

theorem Owned.closes {closes : List ℕ} {eofTimer : Bool} (hs : Owned s) (hthreads : s.threads = [])
    (haccounts : Accounts s.opened closes s.given [])
    (htimer : eofTimer = true → s.connection = true) (endgameQueued : Bool) : Owned { s with
      handle := none, name := false, acceptReqs := fun _ => none, listening := false
      readable := false, writable := false, closing := true, endgameQueued, eofTimer, closes } := by
  refine { hs with
    accounts := ?_, plain := fun _ => rfl, listening := nofun
    closer := fun hcloser => hcloser.elim (hs.closer ∘ .inl) htimer
    closing := fun _ => ⟨hthreads, rfl, rfl⟩, closed := fun _ => rfl
    name := fun hne => absurd hthreads hne }
  rw [held, hthreads, slots_none]
  cases s.pipeserver <;> exact haccounts

theorem Owned.uvPipeClose (hs : Owned s) (hcareful : Careful s .close) : Owned s.uvPipeClose := by
  obtain ⟨hthreads, howned⟩ := hcareful
  have haccounts := hs.accounts
  rw [held, hthreads] at haccounts
  unfold PipeHandle.uvPipeClose PipeHandle.uvPipeCleanup
  dsimp only
  by_cases hserver : s.pipeserver = true
  · have hconnection : ¬s.connection = true := by simp [hs.unconnected hserver]
    rw [if_pos hserver] at haccounts ⊢
    rw [if_neg hconnection]
    exact hs.closes hthreads haccounts.release (hs.closer ∘ .inr) _
  · have hreqs := hs.plain (by simpa using hserver)
    rw [if_neg hserver] at haccounts ⊢
    by_cases hconnection : s.connection = true
    · rw [if_pos hconnection]
      have htimer : false = true → s.connection = true := nofun
      have hclosed := hs.closes hthreads haccounts.release htimer
        (s.endgameQueued || s.reqsPending = 0)
      rw [← hreqs] at hclosed
      exact hclosed
    · have hempty : s.handle = none := by
        rcases howned with hempty | habs | habs
        · exact hempty
        · exact absurd habs hconnection
        · exact absurd habs hserver
      rw [if_neg hconnection]
      rw [hempty] at haccounts
      have hclosed := hs.closes hthreads haccounts (hs.closer ∘ .inr)
        (s.endgameQueued || s.reqsPending = 0)
      rw [← hreqs, ← hempty] at hclosed
      exact hclosed

/-! ### Runs -/

theorem Owned.step (hs : Owned s) (hcareful : Careful s e) (ht : Step s e t) : Owned t := by
  rw [Step, PipeHandle.step] at ht
  split_ifs at ht with henabled
  cases e with
  | connect cb call =>
    cases ht
    exact hs.uvPipeConnect henabled hcareful
  | bind call =>
    cases ht
    exact hs.uvPipeBind henabled hcareful
  | listen calls => exact hs.uvPipeListen henabled ht
  | accept calls => exact hs.uvPipeAccept ht
  | accepted => exact hs.uvPipeAccepted henabled hcareful ht
  | shutdown =>
    cases ht
    unfold PipeHandle.uvShutdown
    split_ifs
    · exact hs
    · exact { hs with }
  | close =>
    cases ht
    exact hs.uvPipeClose hcareful
  | threadWaits cb available =>
    cases ht
    unfold PipeHandle.threadWaits PipeHandle.readName
    dsimp only
    split_ifs
    · exact hs.thread henabled .available rfl
    · exact hs.threadReturns henabled rfl
  | threadOpens cb opens =>
    cases ht
    exact hs.threadOpens henabled
  | threadSets cb h call =>
    cases ht
    exact hs.threadSets henabled hcareful
  | completed i success =>
    cases ht
    exact { hs with }
  | processConnect success cb => exact hs.uvProcessPipeConnectReq ht
  | processAccept i success calls => exact hs.uvProcessPipeAcceptReq ht
  | processShutdown => exact hs.uvProcessPipeShutdownReq henabled.1 ht
  | endgame flushed => exact hs.uvPipeEndgame ht
  | eofTimer =>
    cases ht
    exact (hs.closePipe (hs.closer (.inr henabled.1))).uvPipeReadEof
  | readEof =>
    cases ht
    exact hs.uvPipeReadEof
  | returned =>
    apply Owned.decrease ?_ ht
    exact { hs with }

def Init (s : PipeHandle n) : Prop := s = uvPipeInit n

theorem Owned.of_init (h : Init s) : Owned s := by
  subst h
  have haccounts : Accounts (uvPipeInit n).opened (uvPipeInit n).closes (uvPipeInit n).given
      (uvPipeInit n).held := .nil
  exact ⟨haccounts, fun _ => rfl, rfl, nofun, nofun, fun habs => habs.elim nofun nofun, nofun,
    nofun, fun habs => absurd rfl habs, rfl⟩

theorem Owned.of_reachable (h : Reachable Init (Guarded Careful Step) s) : Owned s := by
  apply h.invariant
  · exact fun s hs => .of_init hs
  · exact fun s e t _ hs hst => hs.step hst.1 hst.2

/-- If the callers and the connect thread do what `Careful` asks for, no handle is closed twice,
each is closed or left to a client before the close callback, and the thread does not read a name
that was freed. -/
theorem handles_closed_once (h : Reachable (Init (n := n)) (Guarded Careful Step) s) :
    s.closes.Nodup ∧ (∀ h ∈ s.closes, h < s.opened) ∧ s.misused = false ∧
      (s.closed = true → ∀ h < s.opened, s.closes.count h + s.given.count h = 1) := by
  have hs := Owned.of_reachable h
  refine ⟨hs.accounts.nodup, fun _ => hs.accounts.lt_of_mem, hs.misused, fun hclosed h hlt => ?_⟩
  obtain ⟨hthreads, hempty, hreqs⟩ := hs.closing (hs.closed hclosed)
  have hheld : s.held = [] := by
    rw [held, hthreads, hempty, hreqs, slots_none]
    cases s.pipeserver <;> rfl
  have haccounts := hs.accounts
  rw [hheld] at haccounts
  exact haccounts.settled hlt

/-! ### Concrete runs -/

def duplex : OpenCall := ⟨true, true, true⟩

/-- A pipe is connected, and closed after its callback. -/
theorem handles_closed_once_connect : ∃ s : PipeHandle 3, s.closed = true ∧ s.opened = 1 ∧
    ∀ h < s.opened, s.closes.count h + s.given.count h = 1 := by
  have hsome : ([Event.connect true (.opens duplex), .processConnect true true, .returned, .close,
      .endgame false].foldlM (fun s e => if Careful s e then step s e else none)
        (uvPipeInit 3)).isSome = true := by decide
  have hclosed := handles_closed_once (.of_foldlM_if (.init rfl) (Option.some_get hsome).symm)
  exact ⟨_, by rfl, by rfl, hclosed.2.2.2 (by rfl)⟩

/-- The pipe is closed before the loop processes its connection; it is closed while the thread
waits; or `uv_set_pipe_handle` fails in the thread. -/
theorem handle_not_closed :
    (∃ s : PipeHandle 3, Reachable Init Step s ∧ s.closed = true ∧ s.opened = 1 ∧ s.closes = [] ∧
      s.given = []) ∧
    (∃ s : PipeHandle 3, Reachable Init Step s ∧ s.misused = true) ∧
    ∃ s : PipeHandle 3, Reachable Init Step s ∧ s.closed = true ∧ s.opened = 1 ∧ s.closes = [] ∧
      s.given = [] := by
  refine ⟨?_, ?_, ?_⟩
  · have hsome : ([Event.connect true (.opens duplex), .close, .processConnect true true, .returned,
        .endgame false].foldlM step (uvPipeInit 3)).isSome = true := by decide
    exact ⟨_, .of_foldlM (.init rfl) (Option.some_get hsome).symm, by rfl, by rfl, by rfl, by rfl⟩
  · have hsome : ([Event.connect true .busy, .close, .threadWaits true false].foldlM step
        (uvPipeInit 3)).isSome = true := by decide
    exact ⟨_, .of_foldlM (.init rfl) (Option.some_get hsome).symm, by rfl⟩
  · have hsome : ([Event.connect true .busy, .threadWaits true true, .threadOpens true true,
        .threadSets true 0 ⟨false, true, true⟩, .processConnect false true, .returned, .close,
        .endgame false].foldlM step (uvPipeInit 3)).isSome = true := by decide
    exact ⟨_, .of_foldlM (.init rfl) (Option.some_get hsome).symm, by rfl, by rfl, by rfl, by rfl⟩

end PipeHandle

end LibuvWorks.Win
