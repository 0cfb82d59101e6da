import LibuvWorks.Lib.Transition
import Mathlib.Data.Int.Notation
import Mathlib.Data.List.Nodup

/-!
# Sockets received over a Windows ipc pipe

The reader of an ipc pipe queues the infos of the sockets that it receives, and `uv_accept` imports
them. If `uv_tcp_import` fails, the item has left the queue but is not freed, and nobody else knows
of its socket.
-/
namespace LibuvWorks.Win

open Transition List

/-- `uv__ipc_queue_item_t`; the serial tells the allocated items apart. -/
structure IpcQueueItem (ι : Type*) where
  serial : ℕ
  socketInfoEx : ι
  tcpConnection : Bool

/-- The errors of `WSASocketW` and `uv_tcp_set_socket` in `uv_tcp_import`; `0` is success. -/
structure ImportCalls where
  socket : ℕ
  setSocket : ℤ
  deriving DecidableEq

def wsaEwouldblock : ℤ := 10035

/-- An ipc pipe, as far as it queues sockets. The last four fields record what was received,
imported into a client, materialised and closed, and freed. -/
structure IpcPipe (κ ι : Type*) where
  queue : List (IpcQueueItem ι)
  queueLen : ℤ
  reqsPending : ℕ
  closing : Bool
  closed : Bool
  received : List (IpcQueueItem ι)
  imported : List (κ × IpcQueueItem ι)
  closedSockets : List (IpcQueueItem ι)
  freed : List (IpcQueueItem ι)

namespace IpcPipe

variable {κ ι : Type*} {s t : IpcPipe κ ι} {item : IpcQueueItem ι}

/-! ### The code -/

def uvPipeInsertPendingSocket (s : IpcPipe κ ι) (info : ι) (tcpConnection : Bool) : IpcPipe κ ι :=
  let item := ⟨s.received.length, info, tcpConnection⟩
  { s with
    queue := s.queue ++ [item]
    queueLen := s.queueLen + 1
    received := s.received ++ [item] }

/-- `uv_tcp_import`, with its result. -/
def uvTcpImport (s : IpcPipe κ ι) (client : κ) (item : IpcQueueItem ι) (calls : ImportCalls) :
    IpcPipe κ ι × ℤ :=
  if calls.socket ≠ 0 then (s, calls.socket)
  else if calls.setSocket ≠ 0 then
    ({ s with closedSockets := s.closedSockets ++ [item] }, calls.setSocket)
  else ({ s with imported := s.imported ++ [(client, item)] }, 0)

def uvFree (s : IpcPipe κ ι) (item : IpcQueueItem ι) : IpcPipe κ ι :=
  { s with freed := s.freed ++ [item] }

/-- `uv_pipe_accept` of an ipc pipe, with its result. -/
def uvPipeAccept (s : IpcPipe κ ι) (client : κ) (calls : ImportCalls) : IpcPipe κ ι × ℤ :=
  match s.queue with
  | [] => (s, wsaEwouldblock)
  | item :: queue =>
    let (s, err) := { s with queue, queueLen := s.queueLen - 1 }.uvTcpImport client item calls
    -- the item is kept if the import fails
    if err ≠ 0 then (s, err) else (s.uvFree item, 0)

/-- A round of the loop of `uv_pipe_endgame`. -/
def freePendingSocket (materialises : ℕ → Bool) (s : IpcPipe κ ι) (item : IpcQueueItem ι) :
    IpcPipe κ ι :=
  let s := s.uvFree item
  if materialises item.serial then { s with closedSockets := s.closedSockets ++ [item] } else s

/-- `uv_pipe_endgame`; none if an assertion fails. -/
def uvPipeEndgame (s : IpcPipe κ ι) (materialises : ℕ → Bool) : Option (IpcPipe κ ι) :=
  if s.closing ∧ s.reqsPending = 0 then
    if s.closed then none
    else
      some { s.queue.foldl (freePendingSocket materialises) s with
        queue := [], queueLen := 0, closed := true }
  else some s

/-- What happens to an ipc pipe: a frame with a socket is read, the user accepts or closes, the
endgame runs, or other requests come and go. `materialises` are the sockets for which `WSASocketW`
succeeds. -/
inductive Event (κ ι : Type*) where
  | receive (info : ι) (tcpConnection : Bool) : Event κ ι
  | accept (client : κ) (calls : ImportCalls) : Event κ ι
  | close : Event κ ι
  | endgame (materialises : ℕ → Bool) : Event κ ι
  | requests (n : ℕ) : Event κ ι

/-- The events that can happen. -/
def Enabled (s : IpcPipe κ ι) : Event κ ι → Prop
  | .receive _ _ => s.closing = false
  | .accept _ _ => s.closed = false
  | .close => s.closing = false
  | .endgame _ => s.closed = false
  | .requests _ => s.closed = false

instance (s : IpcPipe κ ι) (e : Event κ ι) : Decidable (Enabled s e) := by
  cases e <;> exact inferInstanceAs (Decidable (_ = false))

def next (s : IpcPipe κ ι) : Event κ ι → Option (IpcPipe κ ι)
  | .receive info tcpConnection => some (s.uvPipeInsertPendingSocket info tcpConnection)
  | .accept client calls => some (s.uvPipeAccept client calls).1
  | .close => some { s with closing := true }
  | .endgame materialises => s.uvPipeEndgame materialises
  | .requests n => some { s with reqsPending := n }

def step (s : IpcPipe κ ι) (e : Event κ ι) : Option (IpcPipe κ ι) :=
  if Enabled s e then s.next e else none

def Step (s : IpcPipe κ ι) (e : Event κ ι) (t : IpcPipe κ ι) : Prop := s.step e = some t

structure Init (s : IpcPipe κ ι) : Prop where
  queue : s.queue = []
  queueLen : s.queueLen = 0
  closed : s.closed = false
  received : s.received = []
  imported : s.imported = []
  closedSockets : s.closedSockets = []
  freed : s.freed = []

/-- No import fails, and the endgame can materialise what is left. -/
def Careful (s : IpcPipe κ ι) : Event κ ι → Prop
  | .accept _ calls => s.queue = [] ∨ calls = ⟨0, 0⟩
  | .endgame materialises => ∀ item ∈ s.queue, materialises item.serial = true
  | _ => True

/-! ### The books -/

/-- Every item that was received is imported, closed, or queued, in the order of receipt; the
first two are freed. -/
structure Books (s : IpcPipe κ ι) : Prop where
  received : s.received = s.imported.map Prod.snd ++ s.closedSockets ++ s.queue
  freed : s.freed = s.imported.map Prod.snd ++ s.closedSockets
  queueLen : s.queueLen = s.queue.length
  serials : s.received.map IpcQueueItem.serial = List.range s.received.length
  closedSockets : s.closed = false → s.closedSockets = []
  closed : s.closed = true → s.closing = true ∧ s.queue = []

theorem Books.open_of_not_closing (h : Books s) (hclosing : s.closing = false) :
    s.closed = false := by
  by_contra hne
  have hset := (h.closed (by simpa using hne)).1
  cases hclosing.symm.trans hset

theorem Books.receive (h : Books s) (hclosing : s.closing = false) (info : ι)
    (tcpConnection : Bool) : Books (s.uvPipeInsertPendingSocket info tcpConnection) := by
  have hopen := h.open_of_not_closing hclosing
  constructor
  · change s.received ++ [_] = _ ++ (s.queue ++ [_])
    rw [h.received, append_assoc]
    rfl
  · exact h.freed
  · change s.queueLen + 1 = ((s.queue ++ [_]).length : ℤ)
    rw [h.queueLen, length_append]
    rfl
  · change (s.received ++ [_]).map IpcQueueItem.serial = range (s.received ++ [_]).length
    rw [map_append, h.serials, length_append, length_singleton, range_succ]
    rfl
  · exact h.closedSockets
  · intro hclosed
    cases hopen.symm.trans hclosed

theorem Books.accept (h : Books s) (hopen : s.closed = false) (client : κ) {calls : ImportCalls}
    (hcareful : s.queue = [] ∨ calls = ⟨0, 0⟩) : Books (s.uvPipeAccept client calls).1 := by
  rw [uvPipeAccept]
  cases hq : s.queue with
  | nil => exact h
  | cons item queue =>
    obtain ⟨hreceived, hfreed, hlen, hserials, hsockets, -⟩ := h
    obtain rfl : calls = ⟨0, 0⟩ := hcareful.resolve_left (by simp [hq])
    rw [hsockets hopen, append_nil] at hreceived hfreed
    rw [hq] at hreceived hlen
    constructor
    · change s.received = (s.imported ++ [(client, item)]).map Prod.snd ++ s.closedSockets ++ queue
      rw [hreceived, hsockets hopen]
      simp
    · change s.freed ++ [item] = (s.imported ++ [(client, item)]).map Prod.snd ++ s.closedSockets
      rw [hfreed, hsockets hopen]
      simp
    · change s.queueLen - 1 = (queue.length : ℤ)
      rw [hlen, length_cons]
      omega
    · exact hserials
    · exact hsockets
    · intro hclosed
      cases hopen.symm.trans hclosed

variable {materialises : ℕ → Bool}

theorem foldl_freePendingSocket (items : List (IpcQueueItem ι))
    (s : IpcPipe κ ι) (hall : ∀ item ∈ items, materialises item.serial = true) :
    items.foldl (freePendingSocket materialises) s =
      { s with closedSockets := s.closedSockets ++ items, freed := s.freed ++ items } := by
  induction items generalizing s with
  | nil => simp
  | cons item items ih =>
    have hfirst : freePendingSocket materialises s item =
        { s with closedSockets := s.closedSockets ++ [item], freed := s.freed ++ [item] } :=
      if_pos (hall item (by simp))
    rw [foldl_cons, hfirst, ih _ fun item hmem => hall item (by simp [hmem])]
    simp

theorem Books.endgame (h : Books s) (hopen : s.closed = false)
    (hcareful : ∀ item ∈ s.queue, materialises item.serial = true) :
    ∃ t, s.uvPipeEndgame materialises = some t ∧ Books t := by
  rw [uvPipeEndgame]
  by_cases hready : s.closing = true ∧ s.reqsPending = 0
  · rw [if_pos hready, if_neg (by simp [hopen]), foldl_freePendingSocket _ _ hcareful]
    obtain ⟨hreceived, hfreed, -, hserials, hsockets, -⟩ := h
    rw [hsockets hopen, append_nil] at hreceived hfreed
    refine ⟨_, rfl, ?_, ?_, rfl, hserials, by simp, fun _ => ⟨hready.1, rfl⟩⟩
    · dsimp only
      rw [hreceived, hsockets hopen, nil_append, append_nil]
    · dsimp only
      rw [hfreed, hsockets hopen, nil_append]
  · rw [if_neg hready]
    exact ⟨s, rfl, h⟩

theorem Books.step (h : Books s) {e : Event κ ι} (henabled : Enabled s e) (hcareful : Careful s e) :
    ∃ t, s.step e = some t ∧ Books t := by
  rw [IpcPipe.step, if_pos henabled]
  have hsame := h
  obtain ⟨hreceived, hfreed, hlen, hserials, hsockets, hclosed⟩ := h
  cases e with
  | receive info tcpConnection => exact ⟨_, rfl, hsame.receive henabled info tcpConnection⟩
  | accept client calls => exact ⟨_, rfl, hsame.accept henabled client hcareful⟩
  | close =>
    exact ⟨_, rfl, hreceived, hfreed, hlen, hserials, hsockets, fun h => ⟨rfl, (hclosed h).2⟩⟩
  | endgame materialises => exact hsame.endgame henabled hcareful
  | requests n => exact ⟨_, rfl, hreceived, hfreed, hlen, hserials, hsockets, hclosed⟩

/-! ### Runs -/

theorem Books.of_reachable (h : Reachable Init (Guarded Careful Step) s) : Books s := by
  apply h.invariant
  · rintro s ⟨hqueue, hlen, hclosed, hreceived, himported, hsockets, hfreed⟩
    constructor <;> simp [hqueue, hlen, hclosed, hreceived, himported, hsockets, hfreed]
  · rintro s e t _ hs ⟨hcareful, hstep⟩
    obtain ⟨henabled, -⟩ := Option.ite_none_right_eq_some.mp hstep
    obtain ⟨u, hu, hbooks⟩ := hs.step henabled hcareful
    rwa [Option.some.inj (hstep.symm.trans hu)]

/-- In a run in which no import fails, every socket info that was received is imported into one
client, or materialised and closed once, or queued; its item is freed once when it has left the
queue, `queue_len` is the length of the queue, and a closed pipe has an empty one. -/
theorem sockets_accounted (h : Reachable Init (Guarded Careful Step) s) :
    s.received = s.imported.map Prod.snd ++ s.closedSockets ++ s.queue ∧
    s.received.Nodup ∧
    s.freed = s.imported.map Prod.snd ++ s.closedSockets ∧
    s.queueLen = s.queue.length ∧
    (s.closed = true → s.queue = []) ∧
    ∀ e, Enabled s e → Careful s e → ∃ t, Step s e t := by
  have hs := Books.of_reachable h
  refine ⟨hs.received, ?_, hs.freed, hs.queueLen, fun hclosed => (hs.closed hclosed).2, ?_⟩
  · apply List.Nodup.of_map IpcQueueItem.serial
    rw [hs.serials]
    exact List.nodup_range
  · intro e henabled hcareful
    obtain ⟨t, ht, -⟩ := hs.step henabled hcareful
    exact ⟨t, ht⟩

/-! ### Concrete runs -/

def freshPipe : IpcPipe ℕ ℕ := ⟨[], 0, 0, false, false, [], [], [], []⟩

theorem init_freshPipe : Init freshPipe := ⟨rfl, rfl, rfl, rfl, rfl, rfl, rfl⟩

instance [DecidableEq ι] : ∀ (s : IpcPipe κ ι) (e : Event κ ι), Decidable (Careful s e)
  | s, .accept _ calls => inferInstanceAs (Decidable (s.queue = [] ∨ calls = ⟨0, 0⟩))
  | s, .endgame materialises => inferInstanceAs (Decidable
      (∀ item ∈ s.queue, materialises item.serial = true))
  | _, .receive _ _ => .isTrue trivial
  | _, .close => .isTrue trivial
  | _, .requests _ => .isTrue trivial

/-- Of two sockets one is imported, and one is closed with the pipe. -/
theorem sockets_accounted_two : ∃ s : IpcPipe ℕ ℕ, s.closed = true ∧
    s.imported = [(5, ⟨0, 70, true⟩)] ∧ s.closedSockets = [⟨1, 71, false⟩] ∧
      s.freed = s.imported.map Prod.snd ++ s.closedSockets := by
  have hsome : ([Event.receive 70 true, .receive 71 false, .accept 5 ⟨0, 0⟩, .close,
      .endgame fun _ => true].foldlM (fun s e => if Careful s e then step s e else none)
      freshPipe).isSome = true := by rfl
  have haccounted :=
    sockets_accounted (.of_foldlM_if (.init init_freshPipe) (Option.some_get hsome).symm)
  exact ⟨_, by rfl, by rfl, by rfl, haccounted.2.2.1⟩

/-- A socket whose import fails is neither imported nor closed, and its item is never freed. -/
theorem failedImport_leaks : ∃ s : IpcPipe ℕ ℕ, Reachable Init Step s ∧ s.closed = true ∧
    s.received = [⟨0, 70, true⟩] ∧ s.imported = [] ∧ s.closedSockets = [] ∧ s.freed = [] := by
  have hsome : ([Event.receive 70 true, .accept 5 ⟨10055, 0⟩, .close,
      .endgame fun _ => true].foldlM step freshPipe).isSome = true := by rfl
  exact ⟨_, .of_foldlM (.init init_freshPipe) (Option.some_get hsome).symm, by rfl, by rfl, by rfl,
    by rfl, by rfl⟩

end IpcPipe

end LibuvWorks.Win
