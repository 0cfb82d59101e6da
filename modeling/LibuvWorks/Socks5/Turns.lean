import LibuvWorks.Socks5.Client

/-!
# The turns of a session

`Turn ret s st t` lists what a call of `do_next` that returns can be: what it requires of
the session `s`, the state `st` it ends in, and what it makes of the rest of the session.
-/
namespace LibuvWorks.Socks5.Client

open Function (update update_apply)
open StateExcept

theorem Side.forall {p : Side → Prop} : (∀ c, p c) ↔ p .incoming ∧ p .outgoing :=
  ⟨fun h => ⟨h _, h _⟩, fun h c => by cases c <;> simp [h]⟩

namespace Session

variable (s : Session)

/-- The session once the half-operation of the client is noticed, with the parser then. -/
@[simps!] def settled (p : S5Ctx) : Session :=
  ((s.setRd .incoming .stop).setWr .incoming .stop).setParser p

@[simps!] def reads (c : Side) : Session := (s.reading c).setTimer c true

@[simps!] def writes (c : Side) (src : Option Side) (data : List UInt8) : Session :=
  (s.writing c src data).setTimer c true

@[simps!] def killed : Session := ((s.note .kill).closing .incoming).closing .outgoing

@[simps!] def looking (ret : Returns) (hostname : ℕ → UInt8) : Session :=
  (((s.note (.lookup hostname)).setScratch .outgoing ⟨[], ret.stale⟩).setReq .outgoing
    (some .addrinfo)).setTimer .outgoing true

@[simps!] def connecting (ret : Returns) : Session :=
  (s.setScratch .outgoing ⟨[], ret.stale⟩).setReq .outgoing (some .connect)

end Session

theorem Session.setRd_self {s : Session} {c : Side} : s.setRd c (s.conn c).rdstate = s := by
  simp [Session.setRd, Session.setConn]

theorem Session.setWr_self {s : Session} {c : Side} : s.setWr c (s.conn c).wrstate = s := by
  simp [Session.setWr, Session.setConn]

/-- The state that `do_kill` leads to. -/
def killState (state : SessState) : SessState :=
  if state = .reqLookup then .almostDead0 else .almostDead1

variable {ret : Returns} {s t u : Session} {c a b : Side} {st : SessState} {x : Unit} {e : Event}

theorem assert_ok {p : Prop} [Decidable p] : assert p s = .ok x t ↔ p ∧ t = s := by
  simp [assert]

theorem assertState_ok {p : Prop} [Decidable p] : assertState p s = .ok x t ↔ p ∧ t = s := by
  simp [assertState]

theorem check_ok {p : Prop} [Decidable p] : check p s = .ok x t ↔ p ∧ t = s := by
  simp [check]

theorem connTimerReset_ok :
    connTimerReset ret c s = .ok x t ↔ ret.timerStart c = 0 ∧ t = s.setTimer c true := by
  simp [connTimerReset, check_ok]

theorem connRead_ok :
    connRead ret c s = .ok x t ↔
      (s.conn c).rdstate = .stop ∧ ret.readStart c = 0 ∧ ret.timerStart c = 0 ∧
        t = s.reads c := by
  simp [connRead, assertState_ok, check_ok, connTimerReset_ok, Session.reads]

theorem connWrite_ok {src : Option Side} {data : List UInt8} :
    connWrite ret c src data s = .ok x t ↔
      ((s.conn c).wrstate = .stop ∨ (s.conn c).wrstate = .done) ∧ ret.write c = 0 ∧
        ret.timerStart c = 0 ∧ t = s.writes c src data := by
  simp [connWrite, assertState_ok, check_ok, connTimerReset_ok, Session.writes]

theorem doKill_ok :
    doKill s = .ok st t ↔
      (s.state.isAlmostDead = true ∧ st = s.state ∧ t = s) ∨
      (s.state.isAlmostDead = false ∧ (∀ c, (s.conn c).rdstate ≠ .dead) ∧
        (∀ c, (s.conn c).wrstate ≠ .dead) ∧ st = killState s.state ∧ t = s.killed) := by
  simp only [Side.forall]
  simp [doKill, connClose, assertState_ok, killState, Session.killed]
  tauto

theorem assertStopped_ok :
    assertStopped s = .ok x t ↔
      (∀ c, (s.conn c).rdstate = .stop ∧ (s.conn c).wrstate = .stop) ∧ t = s := by
  simp [assertStopped, assertState_ok, Side.forall, and_assoc]

/-- What `do_req_connect_start` does, when it returns. -/
inductive ConnectStart (ret : Returns) (s : Session) : SessState → Session → Prop
  | denied (hno : canAccess (s.conn .outgoing).t.addr = false) :
    ConnectStart ret s .kill ((s.note (.access (s.conn .outgoing).t.addr false)).writes .incoming
      none [5, 2, 0, 1, 0, 0, 0, 0, 0, 0])
  | connecting (hyes : canAccess (s.conn .outgoing).t.addr = true) (hret : ret.connect = 0)
    (hreq : (s.conn .outgoing).req = none) :
    ConnectStart ret s .reqConnect ((((s.note (.access (s.conn .outgoing).t.addr true)).setTimer
      .outgoing true).note (.connect (s.conn .outgoing).t.addr 0)).connecting ret)
  | failed (hyes : canAccess (s.conn .outgoing).t.addr = true) (hret : ret.connect ≠ 0)
    (hstate : s.state.isAlmostDead = false) :
    ConnectStart ret s (killState s.state)
      ((((s.note (.access (s.conn .outgoing).t.addr true)).setTimer .outgoing true).note
        (.connect (s.conn .outgoing).t.addr ret.connect)).killed)

theorem doReqConnectStart_ok (hstate : s.state.isAlmostDead = false)
    (h : doReqConnectStart ret s = .ok st t) : ConnectStart ret s st t := by
  simp [doReqConnectStart, assertStopped_ok, connWrite_ok, connConnect, connTimerReset_ok,
    assert_ok, doKill_ok] at h
  obtain ⟨-, ⟨hno, ⟨-, -, -, rfl⟩, rfl⟩ | ⟨hyes, -, -, err, u, hconn, hres⟩⟩ := h
  · rw [hno]
    exact .denied hno
  · rw [hyes] at hconn
    obtain ⟨hret, hreq, rfl, rfl⟩ | ⟨hret, rfl, rfl⟩ := hconn
    · obtain ⟨-, rfl, rfl⟩ | ⟨herr, -⟩ := hres
      · rw [hret]
        exact .connecting hyes hret hreq
      · exact absurd hret herr
    · obtain ⟨herr, -⟩ | ⟨-, ⟨hdead, -⟩ | ⟨-, -, -, rfl, rfl⟩⟩ := hres
      · exact absurd herr hret
      · simp [hstate] at hdead
      · exact .failed hyes hret hstate

/-- What `conn_cycle` does with two connections that have no error. -/
inductive Cycle (ret : Returns) (a b : Side) (s : Session) : Session → Prop
  | writing (hwr : (s.conn a).wrstate ≠ .stop) (hdone : (s.conn a).wrstate ≠ .done) :
    Cycle ret a b s s
  | read (hwr : (s.conn a).wrstate = .stop ∨ (s.conn a).wrstate = .done)
    (hrd : (s.conn b).rdstate = .stop) : Cycle ret a b s ((s.setWr a .stop).reads b)
  | write (hwr : (s.conn a).wrstate = .stop ∨ (s.conn a).wrstate = .done)
    (hrd : (s.conn b).rdstate = .done) :
    Cycle ret a b s (((s.setWr a .stop).writes a (some b)
      ((s.conn b).t.buf.take (s.conn b).result.toNat)).setRd b .stop)
  | wait (hwr : (s.conn a).wrstate = .stop ∨ (s.conn a).wrstate = .done)
    (hstop : (s.conn b).rdstate ≠ .stop) (hdone : (s.conn b).rdstate ≠ .done) :
    Cycle ret a b s (s.setWr a .stop)

theorem Cycle.result (h : Cycle ret a b s t) : (t.conn c).result = (s.conn c).result := by
  cases h <;> simp [update_apply] <;> grind

theorem connCycle_ok {x : Bool} (hab : a ≠ b) (h : connCycle ret a b s = .ok x t) :
    (x = true ∧ t = s ∧ ((s.conn a).result < 0 ∨ (s.conn b).result < 0)) ∨
    (x = false ∧ 0 ≤ (s.conn a).result ∧ 0 ≤ (s.conn b).result ∧ Cycle ret a b s t) := by
  simp [connCycle, connRead_ok, connWrite_ok, hab.symm] at h
  obtain ⟨ha, rfl, rfl⟩ | ⟨ha, ⟨hb, rfl, rfl⟩ | ⟨hb, hcycle⟩⟩ := h
  · exact .inl ⟨rfl, rfl, .inl ha⟩
  · exact .inl ⟨rfl, rfl, .inr hb⟩
  · right
    obtain ⟨hwr, hread⟩ | ⟨hwr, ⟨hstop, hread⟩ | ⟨hbusy, rfl, rfl⟩⟩ := hcycle
    · obtain ⟨hrd, ⟨-, -, -, rfl⟩, rfl⟩ | ⟨hrd, ⟨hdone, -, rfl, rfl⟩ | ⟨hdone, rfl, rfl⟩⟩ := hread
      · exact ⟨rfl, ha, hb, .read (.inr hwr) hrd⟩
      · exact ⟨rfl, ha, hb, .write (.inr hwr) hdone⟩
      · exact ⟨rfl, ha, hb, .wait (.inr hwr) hrd hdone⟩
    · have hself : s.setWr a .stop = s := by rw [← hstop, Session.setWr_self]
      obtain ⟨hrd, ⟨-, -, -, rfl⟩, rfl⟩ | ⟨hrd, ⟨hdone, -, rfl, rfl⟩ | ⟨hdone, rfl, rfl⟩⟩ := hread
      · have hread : Cycle ret a b s _ := .read (.inl hstop) hrd
        rw [hself] at hread
        exact ⟨rfl, ha, hb, hread⟩
      · have hwrite : Cycle ret a b s _ := .write (.inl hstop) hdone
        rw [hself] at hwrite
        exact ⟨rfl, ha, hb, hwrite⟩
      · have hwait : Cycle ret a b _ _ := .wait (.inl hstop) hrd hdone
        rw [hself] at hwait
        exact ⟨rfl, ha, hb, hwait⟩
    · exact ⟨rfl, ha, hb, .writing hbusy hwr⟩

/-- The client's bytes are there, and nothing is being written to it. -/
structure GotData (s : Session) : Prop where
  rd : (s.conn .incoming).rdstate = .done
  wr : (s.conn .incoming).wrstate = .stop

structure Wrote (s : Session) : Prop where
  rd : (s.conn .incoming).rdstate = .stop
  wr : (s.conn .incoming).wrstate = .done

def Stopped (s : Session) : Prop :=
  ∀ c, (s.conn c).rdstate = .stop ∧ (s.conn c).wrstate = .stop

/-- The calls of `do_next` that return, before the new state is entered. -/
inductive Turn (ret : Returns) (s : Session) : SessState → Session → Prop
  | kill (p : S5Ctx) (hlive : s.state.isAlmostDead = false) (hstate : s.state ≠ .reqLookup) :
    Turn ret s (killState s.state) (s.killed.setParser p)
  | greet (hstate : s.state = .handshake) (h : GotData s) :
    Turn ret s .handshake ((s.settled s.parsed.2.2).reads .incoming)
  | selectAuth (hstate : s.state = .handshake) (h : GotData s) :
    Turn ret s .reqStart
      ((s.settled (s5SelectAuth s.parsed.2.2 .none).2).writes .incoming none [5, 0])
  | refuseAuth (hstate : s.state = .handshake) (h : GotData s) :
    Turn ret s .kill ((s.settled s.parsed.2.2).writes .incoming none [5, 255])
  | startRequest (hstate : s.state = .reqStart) (h : Wrote s) :
    Turn ret s .reqParse ((s.settled s.parser).reads .incoming)
  | readRequest (hstate : s.state = .reqParse) (h : GotData s) :
    Turn ret s .reqParse ((s.settled s.parsed.2.2).reads .incoming)
  | lookup (p : S5Ctx) (hstate : s.state = .reqParse) (h : GotData s) (hatyp : p.atyp = .host) :
    Turn ret s .reqLookup
      (((s.settled p).note (.request p.atyp p.daddr p.dport)).looking ret p.daddr)
  | address (p : S5Ctx) (st : SessState) (t : Session) (hstate : s.state = .reqParse)
    (h : GotData s) (hatyp : p.atyp ≠ .host)
    (hstart : ConnectStart ret (((s.settled p).note
      (.request p.atyp p.daddr p.dport)).setScratch .outgoing ⟨[], requestAddr p⟩) st t) :
    Turn ret s st t
  | lookupFailed (hstate : s.state = .reqLookup) (h : Stopped s)
    (hres : (s.conn .outgoing).result < 0) :
    Turn ret s .kill (s.writes .incoming none [5, 4, 0, 1, 0, 0, 0, 0, 0, 0])
  | resolved (st : SessState) (t : Session) (hstate : s.state = .reqLookup) (h : Stopped s)
    (hres : 0 ≤ (s.conn .outgoing).result)
    (hstart : ConnectStart ret (s.setScratch .outgoing
      ⟨[], (s.conn .outgoing).t.addr.setPort s.parser.dport⟩) st t) :
    Turn ret s st t
  | success (reply : List UInt8) (hstate : s.state = .reqConnect) (h : Stopped s)
    (hres : (s.conn .outgoing).result = 0) (hreply : successReply ret.sockname = some reply) :
    Turn ret s .proxyStart
      ((s.setScratch .incoming ⟨reply, ret.stale⟩).writes .incoming (some .incoming) reply)
  | refused (hstate : s.state = .reqConnect) (h : Stopped s)
    (hres : (s.conn .outgoing).result ≠ 0) :
    Turn ret s .kill (s.writes .incoming none [5, 5, 0, 1, 0, 0, 0, 0, 0, 0])
  | startProxy (hstate : s.state = .proxyStart) (h : Wrote s)
    (hres : 0 ≤ (s.conn .incoming).result) :
    Turn ret s .proxy ((((s.settled s.parser).reads .incoming).reads .outgoing).note .proxy)
  | cycle (u t : Session) (hstate : s.state = .proxy) (hres : ∀ c, 0 ≤ (s.conn c).result)
    (hin : Cycle ret .incoming .outgoing s u) (hout : Cycle ret .outgoing .incoming u t) :
    Turn ret s .proxy t
  | finalizer (hstate : s.state.isAlmostDead = true) : Turn ret s s.state.succ s

namespace Session

theorem settled_of_wr (hwr : (s.conn .incoming).wrstate = .stop) :
    s.setRd .incoming .stop = s.settled s.parser := by
  have hself : (s.setRd .incoming .stop).setWr .incoming .stop = s.setRd .incoming .stop := by
    simpa [hwr] using setWr_self (s := s.setRd .incoming .stop) (c := .incoming)
  rw [settled, hself]
  rfl

theorem settled_of_rd (hrd : (s.conn .incoming).rdstate = .stop) :
    s.setWr .incoming .stop = s.settled s.parser := by
  have hself : s.setRd .incoming .stop = s := by rw [← hrd, setRd_self]
  rw [settled, hself]
  rfl

theorem settled_setParser {p q : S5Ctx} : (s.settled p).setParser q = s.settled q := rfl

end Session

theorem Turn.of_doKill {p : S5Ctx} (hlive : s.state.isAlmostDead = false)
    (hstate : s.state ≠ .reqLookup) (h : doKill (s.settled p) = .ok st t) : Turn ret s st t := by
  obtain ⟨hdead, -⟩ | ⟨-, -, -, rfl, rfl⟩ := doKill_ok.mp h
  · simp [hlive] at hdead
  · have hkilled : (s.settled p).killed = s.killed.setParser p := by
      simp only [Session.killed, Session.settled, Session.setRd, Session.setWr, Session.closing,
        Session.setConn, Session.note, Session.setParser]
      congr 1
      funext c
      cases c <;> simp
    rw [hkilled]
    exact .kill p hlive hstate

theorem doHandshake_ok (hstate : s.state = .handshake) (h : doHandshake ret s = .ok st t) :
    Turn ret s st t := by
  have hlive : s.state.isAlmostDead = false := by rw [hstate]; rfl
  have hne : s.state ≠ .reqLookup := by simp [hstate]
  simp [doHandshake, assertState_ok, connRead_ok, connWrite_ok] at h
  obtain ⟨hrd, hwr, h⟩ := h
  have hgot : GotData s := ⟨hrd, hwr⟩
  simp only [Session.settled_of_wr hwr, Session.settled_setParser] at h
  obtain ⟨-, h⟩ | ⟨-, ⟨-, ⟨-, -, rfl⟩, rfl⟩ | ⟨-, ⟨-, ⟨-, ⟨-, ⟨-, -, -, rfl⟩, rfl⟩ |
    ⟨-, ⟨-, -, -, rfl⟩, rfl⟩⟩ | ⟨-, h⟩⟩ | ⟨-, h⟩⟩⟩ := h
  · exact .of_doKill hlive hne h
  · exact .greet hstate hgot
  · exact .selectAuth hstate hgot
  · exact .refuseAuth hstate hgot
  · exact .of_doKill hlive hne h
  · exact .of_doKill hlive hne h

theorem doReqStart_ok (hstate : s.state = .reqStart) (h : doReqStart ret s = .ok st t) :
    Turn ret s st t := by
  have hlive : s.state.isAlmostDead = false := by rw [hstate]; rfl
  have hne : s.state ≠ .reqLookup := by simp [hstate]
  simp [doReqStart, assertState_ok, connRead_ok] at h
  obtain ⟨hrd, hwr, h⟩ := h
  rw [Session.settled_of_rd hrd] at h
  obtain ⟨-, h⟩ | ⟨-, ⟨-, -, -, rfl⟩, rfl⟩ := h
  · exact .of_doKill hlive hne h
  · exact .startRequest hstate ⟨hrd, hwr⟩

theorem doReqParse_ok (hstate : s.state = .reqParse) (h : doReqParse ret s = .ok st t) :
    Turn ret s st t := by
  have hlive : s.state.isAlmostDead = false := by rw [hstate]; rfl
  have hne : s.state ≠ .reqLookup := by simp [hstate]
  simp [doReqParse, assert_ok, assertState_ok, connRead_ok, connGetaddrinfo, check_ok,
    connTimerReset_ok] at h
  obtain ⟨hrd, hwr, -, -, h⟩ := h
  have hgot : GotData s := ⟨hrd, hwr⟩
  simp only [Session.settled_of_wr hwr, Session.settled_setParser] at h
  obtain ⟨-, h⟩ | ⟨-, ⟨-, ⟨-, -, rfl⟩, rfl⟩ | ⟨-, ⟨-, ⟨-, ⟨-, h⟩ | ⟨-, ⟨-, h⟩ | ⟨-, -, h⟩⟩⟩ |
    ⟨-, h⟩⟩ | ⟨-, h⟩⟩⟩ := h
  · exact .of_doKill hlive hne h
  · exact .readRequest hstate hgot
  · exact .of_doKill hlive hne h
  · exact .of_doKill hlive hne h
  · obtain ⟨hatyp, -, ⟨-, rfl⟩, rfl⟩ | ⟨hatyp, h⟩ := h
    · exact .lookup _ hstate hgot hatyp
    · exact .address _ _ _ hstate hgot hatyp (doReqConnectStart_ok (by simpa using hlive) h)
  · exact .of_doKill hlive hne h
  · exact .of_doKill hlive hne h

theorem doReqLookup_ok (hstate : s.state = .reqLookup) (h : doReqLookup ret s = .ok st t) :
    Turn ret s st t := by
  have hlive : s.state.isAlmostDead = false := by rw [hstate]; rfl
  simp [doReqLookup, assertStopped_ok, connWrite_ok] at h
  obtain ⟨hstop, ⟨hres, ⟨-, -, -, rfl⟩, rfl⟩ | ⟨hres, -, h⟩⟩ := h
  · exact .lookupFailed hstate hstop hres
  · exact .resolved _ _ hstate hstop hres (doReqConnectStart_ok (by simpa using hlive) h)

theorem doReqConnect_ok (hstate : s.state = .reqConnect) (h : doReqConnect ret s = .ok st t) :
    Turn ret s st t := by
  simp [doReqConnect, assertStopped_ok, check_ok] at h
  obtain ⟨hstop, ⟨hres, -, h⟩ | ⟨hres, h⟩⟩ := h
  · cases hreply : successReply ret.sockname with
    | none => simp [hreply] at h
    | some reply =>
      simp [hreply, connWrite_ok] at h
      obtain ⟨⟨-, -, -, rfl⟩, rfl⟩ := h
      exact .success reply hstate hstop hres hreply
  · simp [connWrite_ok] at h
    obtain ⟨⟨-, -, -, rfl⟩, rfl⟩ := h
    exact .refused hstate hstop hres

theorem doProxyStart_ok (hstate : s.state = .proxyStart) (h : doProxyStart ret s = .ok st t) :
    Turn ret s st t := by
  have hlive : s.state.isAlmostDead = false := by rw [hstate]; rfl
  have hne : s.state ≠ .reqLookup := by simp [hstate]
  simp [doProxyStart, assertState_ok, connRead_ok] at h
  obtain ⟨hrd, hwr, -, -, h⟩ := h
  rw [Session.settled_of_rd hrd] at h
  obtain ⟨-, h⟩ | ⟨hres, -, -, rfl, rfl⟩ := h
  · exact .of_doKill hlive hne h
  · exact .startProxy hstate ⟨hrd, hwr⟩ hres

theorem doProxy_ok (hstate : s.state = .proxy) (h : doProxy ret s = .ok st t) :
    Turn ret s st t := by
  have hlive : s.state.isAlmostDead = false := by rw [hstate]; rfl
  simp [doProxy] at h
  obtain ⟨u, hin, hout⟩ | ⟨u, hin, hkill⟩ := h
  · obtain ⟨habs, -⟩ | ⟨-, h₀, h₁, hin⟩ := connCycle_ok (by decide) hin
    · simp at habs
    obtain ⟨hout, rfl⟩ | ⟨v, hout, -⟩ := hout
    · obtain ⟨habs, -⟩ | ⟨-, -, -, hout⟩ := connCycle_ok (by decide) hout
      · simp at habs
      · exact .cycle u t hstate (Side.forall.mpr ⟨h₀, h₁⟩) hin hout
    · -- The second cycle finds the results that the first one has found.
      obtain ⟨-, -, hres⟩ | ⟨habs, -⟩ := connCycle_ok (by decide) hout
      · rw [hin.result, hin.result] at hres
        omega
      · simp at habs
  · obtain ⟨-, rfl, -⟩ | ⟨habs, -⟩ := connCycle_ok (by decide) hin
    · obtain ⟨hdead, -⟩ | ⟨-, -, -, rfl, rfl⟩ := doKill_ok.mp hkill
      · simp [hlive] at hdead
      · exact .kill u.parser hlive (by simp [hstate])
    · simp at habs

theorem doNext_ok (h : doNext ret s = .ok x t) : ∃ st u, Turn ret s st u ∧ t = u.enter st := by
  simp [doNext, assert_ok] at h
  obtain ⟨-, st, u, h, rfl⟩ := h
  refine ⟨st, u, ?_, rfl⟩
  cases hstate : s.state <;> rw [hstate, doState] at h
  case handshake => exact doHandshake_ok hstate h
  case handshakeAuth => simp [doHandshakeAuth] at h
  case reqStart => exact doReqStart_ok hstate h
  case reqParse => exact doReqParse_ok hstate h
  case reqLookup => exact doReqLookup_ok hstate h
  case reqConnect => exact doReqConnect_ok hstate h
  case proxyStart => exact doProxyStart_ok hstate h
  case proxy => exact doProxy_ok hstate h
  case kill =>
    obtain ⟨hdead, -⟩ | ⟨hlive, -, -, rfl, rfl⟩ := doKill_ok.mp h
    · simp [hstate, SessState.isAlmostDead] at hdead
    · exact .kill s.parser hlive (by simp [hstate])
  case dead => simp at h
  all_goals
    simp [doAlmostDead, assert_ok] at h
    obtain ⟨⟨hdead, rfl⟩, rfl⟩ := h
    exact .finalizer hdead

@[simp] theorem Session.enter_state : (s.enter st).state = st := by
  unfold enter
  split <;> simp_all

@[simp] theorem Session.enter_conn : (s.enter st).conn = s.conn := by
  unfold enter
  split <;> rfl

theorem Session.enter_freed : (s.enter st).freed = (s.freed || st = .dead) := by
  unfold enter
  split <;> simp_all

theorem Session.enter_log :
    (s.enter st).log = if st = .dead then .free :: s.log else s.log := by
  unfold enter
  split <;> simp

@[simp] theorem Session.enter_parser : (s.enter st).parser = s.parser := by
  unfold enter
  split <;> rfl

/-- The callbacks that do not enter `do_next`. -/
def Event.ignored : Event → Bool
  | .connectDone status => status = ecanceled
  | .writeDone _ status => status = ecanceled
  | _ => false

/-- The session that a callback enters `do_next` with. -/
def Session.received (ret : Returns) (s : Session) : Event → Session
  | .timerExpire c status => (s.deliver (.timerExpire c status)).setResult c etimedout
  | .lookupDone status ai =>
    (((s.deliver (.lookupDone status ai)).setResult .outgoing status).note
      (.resolved status ai)).setScratch .outgoing
        (if status = 0 then ⟨[], ai⟩ else (s.conn .outgoing).t)
  | .connectDone status =>
    ((s.deliver (.connectDone status)).note (.connected status)).setResult .outgoing status
  | .readDone c own nread data =>
    ((((s.deliver (.readDone c own nread data)).setRd c .done).setResult c nread).setScratch c
      ⟨data, ret.stale⟩).note (.read c data)
  | .writeDone c status => ((s.deliver (.writeDone c status)).setWr c .done).setResult c status
  | .closeDone c h => (s.deliver (.closeDone c h)).note (.closed c h)

/-- What a callback requires that enters `do_next`. -/
def Session.Accepts (s : Session) : Event → Prop
  | .timerExpire _ status => status = 0
  | .lookupDone status ai => status = 0 → ai.isInet = true
  | .connectDone _ => True
  | .readDone c own _ _ => own = true ∧ (s.conn c).rdstate = .busy
  | .writeDone c _ => (s.conn c).wrstate = .busy
  | .closeDone _ _ => True

/-- The session after a callback that does not enter `do_next`. -/
def Session.skipped (s : Session) (e : Event) : Session :=
  match e with
  | .connectDone status => (s.deliver e).note (.connected status)
  | _ => s.deliver e

@[simp] theorem Session.deliver_state : (s.deliver e).state = s.state := by
  cases e <;> rfl

@[simp] theorem Session.deliver_freed : (s.deliver e).freed = s.freed := by
  cases e <;> rfl

@[simp] theorem Session.deliver_log : (s.deliver e).log = s.log := by
  cases e <;> rfl

@[simp] theorem Session.received_state : (s.received ret e).state = s.state := by
  cases e <;> simp [received]

theorem received_lookupDone {status : ℤ} {ai : SockAddr} (h : status ≠ 0) :
    s.received ret (.lookupDone status ai) =
      ((s.deliver (.lookupDone status ai)).setResult .outgoing status).note
        (.resolved status ai) := by
  simp [Session.received, Session.deliver, Session.setScratch, Session.setResult, Session.setReq,
    Session.setConn, Session.note, h]

theorem onEvent_ok (h : onEvent ret e s = .ok x t) :
    s.freed = false ∧
      ((e.ignored = true ∧ t = s.skipped e) ∨ (e.ignored = false ∧ s.Accepts e ∧
        ∃ st u, Turn ret (s.received ret e) st u ∧ t = u.enter st)) := by
  simp [onEvent] at h
  obtain ⟨hfreed, h⟩ := h
  refine ⟨hfreed, ?_⟩
  cases e with
  | timerExpire c status =>
    simp [connTimerExpire, check_ok] at h
    exact .inr ⟨rfl, h.1, doNext_ok h.2⟩
  | lookupDone status ai =>
    simp [connGetaddrinfoDone] at h
    obtain ⟨hzero, hinet, h⟩ | ⟨hzero, h⟩ := h
    · exact .inr ⟨rfl, fun _ => hinet, by simpa [Session.received, hzero] using doNext_ok h⟩
    · rw [← received_lookupDone hzero] at h
      exact .inr ⟨rfl, fun h0 => absurd h0 hzero, doNext_ok h⟩
  | connectDone status =>
    simp [connConnectDone] at h
    obtain ⟨hcanceled, rfl⟩ | ⟨hcanceled, h⟩ := h
    · exact .inl ⟨by simp [Event.ignored, hcanceled], rfl⟩
    · exact .inr ⟨by simp [Event.ignored, hcanceled], trivial, doNext_ok h⟩
  | readDone c own nread data =>
    simp [connReadDone, assert_ok, assertState_ok] at h
    exact .inr ⟨rfl, ⟨h.1, by simpa [Session.deliver] using h.2.1⟩, doNext_ok h.2.2⟩
  | writeDone c status =>
    simp [connWriteDone, assertState_ok] at h
    obtain ⟨hcanceled, rfl⟩ | ⟨hcanceled, hbusy, h⟩ := h
    · exact .inl ⟨by simp [Event.ignored, hcanceled], rfl⟩
    · exact .inr ⟨by simp [Event.ignored, hcanceled], by simpa [Session.deliver, Session.Accepts] using hbusy,
        doNext_ok h⟩
  | closeDone c p =>
    exact .inr ⟨rfl, trivial, doNext_ok h⟩

end LibuvWorks.Socks5.Client
