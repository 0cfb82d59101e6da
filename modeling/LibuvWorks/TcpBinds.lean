import LibuvWorks.Unix.TcpBind
import LibuvWorks.Win.TcpBind

/-!
# Refused addresses are reported

On Windows the error of a refused address stays with the handle. On unix `uv_tcp_connect` forgets
it, as does a bind that succeeds or the end of an earlier attempt to connect.
-/
namespace LibuvWorks

open Transition Option

namespace Unix.UvTcp

variable {s t : UvTcp} {e : Event}

/-- The user does not connect a handle while a refused address is due, and does not bind it to
another one; and no earlier attempt to connect is completed then. -/
def Careful (s : UvTcp) : Event → Prop
  | .bind _ _ _ calls => s.ledger.due = true → calls.bind ≠ 0
  | .listen _ _ _ => True
  | .connect _ _ _ | .connected _ => s.ledger.due = false

instance : DecidablePred s.Careful := fun e => by
  induction e using Event.casesOn <;> dsimp only [Careful] <;> infer_instance

def Keeps (s : UvTcp) : Prop := s.ledger.Kept uvEaddrinuse s.delayedError

theorem maybeNewSocket_ledger (s : UvTcp) (readable writable : Bool) (sock : SocketCalls) :
    (s.maybeNewSocket readable writable sock).1.ledger = s.ledger ∧
      (s.maybeNewSocket readable writable sock).1.delayedError = s.delayedError := by
  unfold maybeNewSocket uvStreamOpen
  dsimp only
  split_ifs <;> exact ⟨rfl, rfl⟩

section

variable (h : s.Keeps)
include h

theorem Keeps.maybeNewSocket (readable writable : Bool) (sock : SocketCalls) :
    (s.maybeNewSocket readable writable sock).1.Keeps := by
  obtain ⟨hledger, hdelayed⟩ := s.maybeNewSocket_ledger readable writable sock
  unfold Keeps
  rwa [hledger, hdelayed]

theorem Keeps.done_of_free (hfree : s.ledger.due = false)
    (ht : t.ledger = s.ledger) (use : TcpUse) (result : ℤ) (performed : Bool) :
    (t.done use result performed).Keeps := by
  have hkept : t.ledger.Kept uvEaddrinuse s.delayedError := by
    rw [ht]
    exact h
  refine hkept.call use fun hdue => ?_
  rw [ht, hfree] at hdue
  cases hdue

theorem Keeps.bindSocket (family : AddrFamily) {errno : ℕ}
    (hcareful : s.ledger.due = true → errno ≠ 0) : (s.bindSocket family errno).1.Keeps := by
  unfold UvTcp.bindSocket
  by_cases herr : errno ≠ 0 ∧ errno ≠ eaddrinuse
  · rw [if_pos herr]
    exact h
  by_cases hrefused : errno = eaddrinuse
  · subst hrefused
    exact h.refuse
  · -- the kernel has accepted the address, so that none was due
    obtain rfl : errno = 0 := by
      by_contra hne
      exact herr ⟨hne, hrefused⟩
    exact h.congr fun hdue => absurd rfl (hcareful hdue)

theorem Keeps.uvTcpBind (family : AddrFamily) (ipv6only : Bool) (sock : SocketCalls)
    {calls : BindCalls} (hcareful : s.ledger.due = true → calls.bind ≠ 0) :
    (s.uvTcpBind family ipv6only sock calls).1.Keeps := by
  have hsocket := h.maybeNewSocket true true sock
  have hdue := (s.maybeNewSocket_ledger true true sock).1
  unfold UvTcp.uvTcpBind
  dsimp only
  split_ifs
  · exact h
  · exact h
  · exact hsocket
  · exact hsocket
  · exact hsocket
  · exact hsocket.bindSocket family (by rwa [hdue])

theorem Keeps.free_of_delayedError (hzero : s.delayedError = 0) :
    s.ledger.due = false := by
  by_contra hdue
  have hcode := h.delayed (by simpa using hdue)
  cases hzero.symm.trans hcode

theorem Keeps.uvTcpListen (single : Bool) (sock : SocketCalls) (errno : ℕ) :
    (s.uvTcpListen single sock errno).Keeps := by
  unfold UvTcp.uvTcpListen
  split
  · exact h.call _ fun hdue => ⟨h.delayed hdue, rfl⟩
  · next hzero =>
    have hfree := h.free_of_delayedError (not_not.mp hzero)
    have hledger :=
      ({ s with singleAccept := s.singleAccept || single }.maybeNewSocket_ledger true false sock).1
    dsimp only
    split_ifs
    all_goals
      apply h.done_of_free hfree
      exact hledger

theorem Keeps.uvTcpConnect (hfree : s.ledger.due = false) (family : AddrFamily)
    (sock : SocketCalls) (errno : ℕ) : (s.uvTcpConnect family sock errno).Keeps := by
  have hledger := (s.maybeNewSocket_ledger true true sock).1
  unfold UvTcp.uvTcpConnect
  dsimp only
  split_ifs
  · exact h.done_of_free hfree rfl _ _ _
  · exact h.done_of_free hfree rfl _ _ _
  all_goals
    apply h.done_of_free hfree
    exact hledger

theorem Keeps.uvStreamConnect (hfree : s.ledger.due = false) (soError : ℕ) :
    (s.uvStreamConnect soError).Keeps := by
  have hdue : s.ledger.due ≠ true := by simp [hfree]
  unfold UvTcp.uvStreamConnect
  split
  · exact h.congr fun habs => absurd habs hdue
  · split
    · exact h
    · exact { h with }

theorem Keeps.next (hcareful : s.Careful e) : (s.next e).Keeps := by
  cases e with
  | bind family ipv6only sock calls => exact h.uvTcpBind family ipv6only sock hcareful
  | listen single sock errno => exact h.uvTcpListen single sock errno
  | connect family sock errno => exact h.uvTcpConnect hcareful family sock errno
  | connected soError => exact h.uvStreamConnect hcareful soError

end

theorem Keeps.of_reachable
    (h : Reachable (fun s => ∃ handle, s = fresh handle) (Guarded Careful Step) s) : s.Keeps := by
  apply Reachable.invariant_of_guarded (P := Keeps) h
  · rintro s ⟨handle, rfl⟩
    exact TcpLedger.kept_empty
  · intro s e hs _ hcareful
    exact ⟨_, rfl, hs.next hcareful⟩

end Unix.UvTcp

namespace Win.UvTcp

variable {s t : UvTcp} {e : Event} {family : AddrFamily} {err : ℤ}

/-- The user does not listen with a handle that reads while a refused address is due, and does not
connect it to an address of another family. -/
def Careful (s : UvTcp) : Event → Prop
  | .listen _ _ _ _ => s.ledger.due = true → s.reading = false
  | .connect family _ _ _ => s.ledger.due = true → family ≠ .other
  | _ => True

instance : DecidablePred s.Careful := fun e => by
  induction e using Event.casesOn <;> dsimp only [Careful] <;> infer_instance

structure Keeps (s : UvTcp) : Prop where
  kept : s.ledger.Kept uvEaddrinuse (uvTranslateSysError s.delayedError)
  socket : s.socket = false → s.ipv6 = false

structure Opens (s t : UvTcp) : Prop where
  ledger : t.ledger = s.ledger
  delayed : t.delayedError = s.delayedError
  reading : t.reading = s.reading
  socket : t.socket = false → t.ipv6 = false

theorem setOptions_spec (hipv6 : s.ipv6 = false) (c : SetSocketCalls) (family : AddrFamily) :
    ∃ t err, s.setOptions c family = some (t, err) ∧ Opens s t := by
  simp only [setOptions, hipv6, Bool.false_eq_true, and_false, if_false]
  split_ifs
  · exact ⟨_, _, rfl, rfl, rfl, rfl, fun _ => hipv6⟩
  · exact ⟨_, _, rfl, rfl, rfl, rfl, fun _ => hipv6⟩
  · exact ⟨_, _, rfl, rfl, rfl, rfl, fun habs => nomatch habs⟩

theorem uvTcpSetSocket_spec (hclosed : s.socket = false) (hipv6 : s.ipv6 = false)
    (c : SetSocketCalls) (family : AddrFamily) (imported : Bool) :
    ∃ t err, s.uvTcpSetSocket c family imported = some (t, err) ∧ Opens s t := by
  have hopens : Opens s s := ⟨rfl, rfl, rfl, fun _ => hipv6⟩
  unfold uvTcpSetSocket
  rw [if_neg (by simp [hclosed])]
  by_cases hnonblocking : c.nonblocking ≠ 0
  · exact ⟨_, _, if_pos hnonblocking, hopens⟩
  rw [if_neg hnonblocking]
  by_cases hinherit : c.inherit ≠ 0
  · exact ⟨_, _, if_pos hinherit, hopens⟩
  rw [if_neg hinherit]
  by_cases hiocp : c.iocp ≠ 0 ∧ imported = false
  · exact ⟨_, _, if_pos hiocp, hopens⟩
  rw [if_neg hiocp]
  dsimp only
  split
  · exact ⟨_, _, rfl, rfl, rfl, rfl, fun _ => hipv6⟩
  · have hset := fun emulate bypass => setOptions_spec
      (show { s with emulateIocp := emulate, syncBypassIocp := bypass }.ipv6 = false from hipv6) c
      family
    obtain ⟨t, err, ht, h⟩ := hset _ _
    exact ⟨t, err, ht, h.ledger, h.delayed, h.reading, h.socket⟩

theorem openSocket_spec (hipv6 : s.socket = false → s.ipv6 = false) (family : AddrFamily)
    (ipv6only : Bool) (c : BindCalls) :
    ∃ t err, s.openSocket family ipv6only c = some (t, err) ∧ Opens s t := by
  have hopens : Opens s s := ⟨rfl, rfl, rfl, hipv6⟩
  unfold openSocket
  split_ifs with hsocket
  · exact ⟨_, _, rfl, hopens⟩
  · exact ⟨_, _, rfl, hopens⟩
  · exact ⟨_, _, rfl, hopens⟩
  · have hclosed := Bool.eq_false_iff.mpr hsocket
    exact uvTcpSetSocket_spec hclosed (hipv6 hclosed) _ _ _

/-- What a function does that binds: either no address is refused, or one is, and its error is
delayed. -/
inductive Binds (s t : UvTcp) (err : ℤ) : Prop where
  | same (ledger : t.ledger = s.ledger) (delayed : t.delayedError = s.delayedError) : Binds s t err
  | refused (ledger : t.ledger = s.ledger.refuse) (delayed : t.delayedError = wsaeaddrinuse)
    (ok : err = 0) : Binds s t err

theorem uvTcpTryBind_spec (hipv6 : s.socket = false → s.ipv6 = false) (family : AddrFamily)
    (ipv6only : Bool) (c : BindCalls) :
    ∃ t err, s.uvTcpTryBind family ipv6only c = some (t, err) ∧ Binds s t err ∧
      (t.socket = false → t.ipv6 = false) := by
  obtain ⟨t, err, ht, hopens⟩ := openSocket_spec hipv6 family ipv6only c
  rw [uvTcpTryBind, ht, map_some]
  dsimp only
  by_cases herr : err ≠ 0
  · rw [if_pos herr]
    exact ⟨_, _, rfl, .same hopens.ledger hopens.delayed, hopens.socket⟩
  rw [bindSocket]
  split_ifs with hrefused
  · exact ⟨_, _, rfl, .refused (by rw [hopens.ledger]) hrefused rfl, hopens.socket⟩
  · exact ⟨_, _, rfl, .same hopens.ledger hopens.delayed, hopens.socket⟩
  · exact ⟨_, _, rfl, .same hopens.ledger hopens.delayed, hopens.socket⟩

section

variable (h : s.Keeps)
include h

theorem Keeps.of_binds (hbinds : Binds s t err)
    (hsocket : t.socket = false → t.ipv6 = false) : t.Keeps := by
  refine ⟨?_, hsocket⟩
  cases hbinds with
  | same hledger hdelayed =>
    rw [hledger, hdelayed]
    exact h.kept
  | refused hledger hdelayed =>
    rw [hledger, hdelayed]
    exact h.kept.refuse

theorem Keeps.uvTcpBind (family : AddrFamily) (ipv6only : Bool) (c : BindCalls) :
    ∃ t err, s.uvTcpBind family ipv6only c = some (t, err) ∧ t.Keeps := by
  unfold UvTcp.uvTcpBind
  split
  · exact ⟨_, _, rfl, h⟩
  · obtain ⟨t, err, ht, hbinds, hsocket⟩ := uvTcpTryBind_spec h.socket family ipv6only c
    rw [ht]
    exact ⟨_, _, rfl, h.of_binds hbinds hsocket⟩

theorem Keeps.done (use : TcpUse) {performed : Bool}
    (hdue : s.ledger.due = true → uvTranslateSysError err = uvEaddrinuse ∧ performed = false) :
    (s.done use err performed).Keeps := ⟨h.kept.call use hdue, h.socket⟩

theorem Keeps.free_of_delayedError (hzero : s.delayedError = 0) :
    s.ledger.due ≠ true := by
  intro hdue
  have hcode := h.kept.delayed hdue
  rw [hzero] at hcode
  cases hcode

/-- The handle is bound first; if its address is refused then, that is the error. -/
theorem Keeps.bindAny (hzero : s.delayedError = 0) (family : AddrFamily)
    (c : BindCalls) : ∃ t err, s.bindAny family c = some (t, err) ∧ t.Keeps ∧
      (t.ledger.due = true → err = wsaeaddrinuse) := by
  have hfree := h.free_of_delayedError hzero
  unfold UvTcp.bindAny
  split
  · exact ⟨_, _, rfl, h, fun hdue => absurd hdue hfree⟩
  · obtain ⟨t, err, ht, hbinds, hsocket⟩ := uvTcpTryBind_spec h.socket family false c
    rw [ht]
    refine ⟨_, _, rfl, h.of_binds hbinds hsocket, fun hdue => ?_⟩
    cases hbinds with
    | same hledger _ =>
      rw [hledger] at hdue
      exact absurd hdue hfree
    | refused _ hdelayed hok =>
      rw [hok, hdelayed]
      rfl

theorem Keeps.call_of_free (hfree : s.ledger.due ≠ true) (use : TcpUse) (result : ℤ)
    (performed : Bool) : (s.ledger.call use result performed).Kept uvEaddrinuse
      (uvTranslateSysError s.delayedError) := h.kept.call use fun hdue => absurd hdue hfree

theorem Keeps.listenSocket (hfree : s.ledger.due ≠ true) (acceptex : Bool)
    (errno : ℕ) : (s.listenSocket acceptex errno).Keeps := by
  unfold UvTcp.listenSocket
  split
  · exact ⟨h.call_of_free hfree _ _ _, h.socket⟩
  · dsimp only
    split
    · exact ⟨h.call_of_free hfree _ _ _, h.socket⟩
    · exact ⟨h.call_of_free hfree _ _ _, h.socket⟩

theorem Keeps.connectSocket (hfree : s.ledger.due ≠ true) (connectex : Bool)
    (errno : ℕ) : (s.connectSocket connectex errno).Keeps := by
  unfold UvTcp.connectSocket
  split
  · exact ⟨h.call_of_free hfree _ _ _, h.socket⟩
  · exact ⟨h.call_of_free hfree _ _ _, h.socket⟩

theorem Keeps.uvTcpListen {backlog : ℤ} (hbacklog : 0 < backlog)
    (hcareful : s.ledger.due = true → s.reading = false) (c : BindCalls) (acceptex : Bool)
    (errno : ℕ) : ∃ t, s.uvTcpListen backlog c acceptex errno = some t ∧ t.Keeps := by
  rw [UvTcp.uvTcpListen, if_neg (by omega)]
  by_cases hreading : s.reading = true
  · rw [if_pos hreading]
    refine ⟨_, rfl, h.done .listen fun hdue => ?_⟩
    cases hreading.symm.trans (hcareful hdue)
  rw [if_neg hreading]
  by_cases hdelayed : s.delayedError ≠ 0
  · rw [if_pos hdelayed]
    exact ⟨_, rfl, h.done .listen fun hdue => ⟨h.kept.delayed hdue, rfl⟩⟩
  rw [if_neg hdelayed]
  obtain ⟨t, err, ht, hkeeps, hdue⟩ := h.bindAny (not_not.mp hdelayed) .inet c
  rw [ht]
  refine ⟨_, rfl, ?_⟩
  dsimp only
  split
  · exact hkeeps.done .listen fun h => ⟨by rw [hdue h]; rfl, rfl⟩
  · next hok => exact hkeeps.listenSocket (fun h => hok (by rw [hdue h]; decide)) acceptex errno

theorem Keeps.uvTcpConnect {family : AddrFamily}
    (hcareful : s.ledger.due = true → family ≠ .other) (c : BindCalls) (connectex : Bool)
    (errno : ℕ) : ∃ t, s.uvTcpConnect family c connectex errno = some t ∧ t.Keeps := by
  unfold UvTcp.uvTcpConnect
  by_cases hother : family = .other
  · rw [if_pos hother]
    exact ⟨_, rfl, h.done .connect fun hdue => absurd hother (hcareful hdue)⟩
  rw [if_neg hother]
  by_cases hdelayed : s.delayedError ≠ 0
  · rw [if_pos hdelayed]
    exact ⟨_, rfl, h.done .connect fun hdue => ⟨h.kept.delayed hdue, rfl⟩⟩
  rw [if_neg hdelayed]
  obtain ⟨t, err, ht, hkeeps, hdue⟩ := h.bindAny (not_not.mp hdelayed) family c
  rw [ht]
  refine ⟨_, rfl, ?_⟩
  dsimp only
  split
  · exact hkeeps.done .connect fun h => ⟨by rw [hdue h]; rfl, rfl⟩
  · next hok => exact hkeeps.connectSocket (fun h => hok (by rw [hdue h]; decide)) connectex errno

theorem Keeps.next (henabled : Enabled e) (hcareful : s.Careful e) :
    ∃ t, s.next e = some t ∧ t.Keeps := by
  cases e with
  | bind family ipv6only calls =>
    obtain ⟨t, err, ht, hkeeps⟩ := h.uvTcpBind family ipv6only calls
    exact ⟨t, by rw [UvTcp.next, ht, map_some], hkeeps⟩
  | listen backlog calls acceptex errno =>
    exact h.uvTcpListen henabled hcareful calls acceptex errno
  | connect family calls connectex errno => exact h.uvTcpConnect hcareful calls connectex errno
  | read on => exact ⟨_, rfl, h.kept, h.socket⟩

end

theorem Keeps.of_reachable (h : Reachable Init (Guarded Careful Step) s) : s.Keeps := by
  apply Reachable.invariant_of_guarded (P := Keeps) h
  · intro s ⟨hledger, hsocket⟩
    refine ⟨?_, hsocket⟩
    rw [hledger]
    exact TcpLedger.kept_empty
  · intro s e hs henabled hcareful
    exact hs.next henabled hcareful

end Win.UvTcp

/-! ## Both backends -/

/-- If a refused address is due, `uv_listen` and `uv_tcp_connect` report it and do nothing else: on
unix, unless the handle was connected meanwhile or bound to another address, and on Windows, unless
the handle reads or the address has a wrong family. -/
theorem uvTcpBind_reported {s : Unix.UvTcp} {t : Win.UvTcp}
    (hs : Reachable (fun s => ∃ handle, s = Unix.UvTcp.fresh handle)
      (Guarded Unix.UvTcp.Careful Unix.UvTcp.Step) s)
    (ht : Reachable Win.UvTcp.Init (Guarded Win.UvTcp.Careful Win.UvTcp.Step) t) :
    s.ledger.Reported Unix.uvEaddrinuse ∧ t.ledger.Reported Win.uvEaddrinuse :=
  ⟨(Unix.UvTcp.Keeps.of_reachable hs).reported, (Win.UvTcp.Keeps.of_reachable ht).kept.reported⟩

/-! ### Concrete runs -/

def boundUnixHandle : Unix.UvTcp where
  fd := -1
  nodelay := false
  keepalive := false
  readable := false
  writable := false
  bound := false
  ipv6 := false
  singleAccept := false
  listening := false
  connectReq := false
  delayedError := 0
  ledger := .empty

def unixRefused : Unix.UvTcp.Event := .bind .inet false ⟨5, 0, 0⟩ ⟨0, 0, 98⟩

def boundUnixRun : Option Unix.UvTcp :=
  [unixRefused, .listen false ⟨5, 0, 0⟩ 0].foldlM
    (fun s e => if s.Careful e then s.step e else none) (.fresh boundUnixHandle)

theorem boundUnixRun_isSome : boundUnixRun.isSome = true := rfl

def boundWinHandle : Win.UvTcp where
  socket := false
  emulateIocp := false
  syncBypassIocp := false
  nodelay := false
  keepalive := false
  ipv6 := false
  bound := false
  listening := false
  reading := false
  sharedTcpSocket := false
  delayedError := 0
  funcAcceptex := false
  funcConnectex := false
  ledger := .empty

def boundWinRun : Option Win.UvTcp :=
  [Win.UvTcp.Event.bind .inet false ⟨0, ⟨0, 0, 0, none, 0, 0⟩, 10048⟩,
    .connect .inet ⟨0, ⟨0, 0, 0, none, 0, 0⟩, 0⟩ true 0].foldlM
    (fun s e => if s.Careful e then s.step e else none) boundWinHandle

theorem boundWinRun_isSome : boundWinRun.isSome = true := rfl

theorem uvTcpBind_reported_both :
    (∀ c ∈ (boundUnixRun.get boundUnixRun_isSome).ledger.calls, c.result = Unix.uvEaddrinuse) ∧
    ∀ c ∈ (boundWinRun.get boundWinRun_isSome).ledger.calls, c.result = Win.uvEaddrinuse := by
  have hunix : Reachable (fun s => ∃ handle, s = Unix.UvTcp.fresh handle)
      (Guarded Unix.UvTcp.Careful Unix.UvTcp.Step) (boundUnixRun.get boundUnixRun_isSome) :=
    .of_foldlM_if (.init ⟨_, rfl⟩) (Option.some_get boundUnixRun_isSome).symm
  have hwin : Reachable Win.UvTcp.Init (Guarded Win.UvTcp.Careful Win.UvTcp.Step)
      (boundWinRun.get boundWinRun_isSome) :=
    .of_foldlM_if (.init ⟨rfl, fun _ => rfl⟩) (Option.some_get boundWinRun_isSome).symm
  have hunixDue : ∀ c ∈ (boundUnixRun.get boundUnixRun_isSome).ledger.calls,
      c.due = true := by decide
  have hwinDue : ∀ c ∈ (boundWinRun.get boundWinRun_isSome).ledger.calls, c.due = true := by decide
  obtain ⟨hunixAll, hwinAll⟩ := uvTcpBind_reported hunix hwin
  exact ⟨fun c hc => (hunixAll c hc (hunixDue c hc)).1,
    fun c hc => (hwinAll c hc (hwinDue c hc)).1⟩

def connectedRun : Option Unix.UvTcp :=
  [unixRefused, .connect .inet ⟨5, 0, 0⟩ 115].foldlM (·.step ·) (.fresh boundUnixHandle)

theorem connectedRun_isSome : connectedRun.isSome = true := rfl

/-- The socket is connected from another address, and the error is never reported. -/
theorem conflict_dropped : ∃ s, Reachable (fun s => ∃ handle, s = Unix.UvTcp.fresh handle)
    Unix.UvTcp.Step s ∧ ¬s.ledger.Reported Unix.uvEaddrinuse := by
  refine ⟨connectedRun.get connectedRun_isSome, ?_, fun h => ?_⟩
  · exact .of_foldlM (.init ⟨_, rfl⟩) (Option.some_get connectedRun_isSome).symm
  · have hcall := h ⟨.connect, true, 0, true⟩ (by decide) rfl
    cases hcall.2

end LibuvWorks
