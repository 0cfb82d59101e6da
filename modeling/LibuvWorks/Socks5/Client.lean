import LibuvWorks.Socks5.S5
import LibuvWorks.Lib.StateExcept
import Mathlib.Data.Fintype.Basic

/-!
# A session of the SOCKS5 proxy: `client.c`

A `Session` is a `client_ctx`, with what libuv holds of its handles and requests and with
the history of what it did. The functions of `client.c` are programs over it; `onEvent`
runs the callback of one completion. The calls into libuv return what `Returns` says.
-/
namespace LibuvWorks.Socks5.Client

/-- `enum conn_state` -/
inductive ConnState where
  | busy : ConnState
  | done : ConnState
  | stop : ConnState
  | dead : ConnState
  deriving DecidableEq

/-- `enum sess_state` -/
inductive SessState where
  | handshake : SessState
  | handshakeAuth : SessState
  | reqStart : SessState
  | reqParse : SessState
  | reqLookup : SessState
  | reqConnect : SessState
  | proxyStart : SessState
  | proxy : SessState
  | kill : SessState
  | almostDead0 : SessState
  | almostDead1 : SessState
  | almostDead2 : SessState
  | almostDead3 : SessState
  | almostDead4 : SessState
  | dead : SessState
  deriving DecidableEq

namespace SessState

/-- `state >= s_almost_dead_0` -/
def isAlmostDead : SessState → Bool
  | almostDead0 | almostDead1 | almostDead2 | almostDead3 | almostDead4 | dead => true
  | _ => false

/-- `state + 1`, from `s_almost_dead_0` on. -/
def succ : SessState → SessState
  | almostDead0 => almostDead1
  | almostDead1 => almostDead2
  | almostDead2 => almostDead3
  | almostDead3 => almostDead4
  | almostDead4 => dead
  | state => state

end SessState

/-- The two connections: with the SOCKS client, and with upstream. -/
inductive Side where
  | incoming : Side
  | outgoing : Side
  deriving DecidableEq

def Side.other : Side → Side
  | incoming => outgoing
  | outgoing => incoming

/-- `struct sockaddr`, by its family. Ports are in host order. -/
inductive SockAddr where
  | inet (addr : Fin 4 → UInt8) (port : UInt16) : SockAddr
  | inet6 (addr : Fin 16 → UInt8) (port : UInt16) (flowinfo scope : UInt32) : SockAddr
  | other (family : ℕ) : SockAddr
  deriving DecidableEq

namespace SockAddr

/-- `sa_family == AF_INET || sa_family == AF_INET6` -/
def isInet : SockAddr → Bool
  | inet .. => true
  | inet6 .. => true
  | other _ => false

def setPort (port : UInt16) : SockAddr → SockAddr
  | inet addr _ => inet addr port
  | inet6 addr _ flowinfo scope => inet6 addr port flowinfo scope
  | other family => other family

end SockAddr

def ntohl (b₀ b₁ b₂ b₃ : UInt8) : UInt32 :=
  b₀.toUInt32 <<< 24 ||| b₁.toUInt32 <<< 16 ||| b₂.toUInt32 <<< 8 ||| b₃.toUInt32

def canAccess : SockAddr → Bool
  | .inet addr _ =>
    let d := ntohl (addr 0) (addr 1) (addr 2) (addr 3)
    d >>> 24 ≠ 0x7F
  | .inet6 addr _ _ _ =>
    let a := ntohl (addr 0) (addr 1) (addr 2) (addr 3)
    let b := ntohl (addr 4) (addr 5) (addr 6) (addr 7)
    let c := ntohl (addr 8) (addr 9) (addr 10) (addr 11)
    let d := ntohl (addr 12) (addr 13) (addr 14) (addr 15)
    if a = 0 ∧ b = 0 ∧ c = 0 ∧ d = 1 then false
    else if a = 0 ∧ b = 0 ∧ c = 0xFFFF ∧ d >>> 24 = 0x7F then false
    else true
  | .other _ => false

theorem canAccess_setPort {addr : SockAddr} {port : UInt16} :
    canAccess (addr.setPort port) = canAccess addr := by
  cases addr <;> rfl

def canAuthNone : Bool := true

def etimedout : ℤ := -110

def ecanceled : ℤ := -125

/-- What the union `t` of a connection was last used for: the bytes in `t.buf`, and the
address that its memory reads as through `t.addr`. -/
structure Scratch where
  buf : List UInt8
  addr : SockAddr

/-- The requests that share the memory of `t`. -/
inductive UnionReq where
  | addrinfo : UnionReq
  | connect : UnionReq
  deriving DecidableEq

/-- A write in flight, and the connection whose `t.buf` it points into, if any. -/
structure Write where
  src : Option Side
  data : List UInt8

/-- The two handles of a connection: `handle` and `timer_handle`. -/
inductive Part where
  | handle : Part
  | timer : Part
  deriving DecidableEq

/-- `conn`. From `timer` on: what libuv holds, namely whether `timer_handle` runs, the calls
of `conn_read` that `conn_read_done` has not answered, the writes and the request in `t`
that are in flight, and the handles with a `uv_close` whose callback has not run. -/
structure Conn where
  rdstate : ConnState
  wrstate : ConnState
  result : ℤ
  t : Scratch
  timer : Bool
  reads : ℕ
  writes : List Write
  req : Option UnionReq
  closing : Part → Bool

inductive Obs where
  | request (atyp : S5Atyp) (daddr : ℕ → UInt8) (dport : UInt16) : Obs
  | lookup (hostname : ℕ → UInt8) : Obs
  | resolved (status : ℤ) (ai : SockAddr) : Obs
  | access (addr : SockAddr) (allowed : Bool) : Obs
  | connect (addr : SockAddr) (err : ℤ) : Obs
  | connected (status : ℤ) : Obs
  | read (c : Side) (data : List UInt8) : Obs
  | write (c : Side) (data : List UInt8) : Obs
  | proxy : Obs
  | kill : Obs
  | closed (c : Side) (h : Part) : Obs
  | free : Obs

/-- `client_ctx`, whether it has been freed, and its history, the latest first. -/
structure Session where
  state : SessState
  parser : S5Ctx
  conn : Side → Conn
  freed : Bool
  log : List Obs

/-- What the calls into libuv return; `stale` is what the bytes of a request or of a buffer
read as through `t.addr`. -/
structure Returns where
  readStart : Side → ℤ
  write : Side → ℤ
  timerStart : Side → ℤ
  getaddrinfo : ℤ
  connect : ℤ
  getsockname : ℤ
  sockname : SockAddr
  stale : SockAddr

inductive Abort where
  /-- An `ASSERT` on `rdstate` or `wrstate`. -/
  | assertState : Abort
  /-- Another `ASSERT`. -/
  | assert : Abort
  | check : Abort
  | unreachable : Abort
  /-- Memory was used after it was freed, or while a request that is in flight owns it. -/
  | undefined : Abort

abbrev Act := EStateM Abort Session

open Function (update)

namespace Session

variable (s : Session)

@[simps] def setConn (c : Side) (k : Conn) : Session := { s with conn := update s.conn c k }

@[simps] def setParser (p : S5Ctx) : Session := { s with parser := p }

@[simps] def note (o : Obs) : Session := { s with log := o :: s.log }

@[simps!] def setRd (c : Side) (st : ConnState) : Session :=
  s.setConn c { s.conn c with rdstate := st }

@[simps!] def setWr (c : Side) (st : ConnState) : Session :=
  s.setConn c { s.conn c with wrstate := st }

@[simps!] def setResult (c : Side) (r : ℤ) : Session :=
  s.setConn c { s.conn c with result := r }

@[simps!] def setScratch (c : Side) (t : Scratch) : Session :=
  s.setConn c { s.conn c with t := t }

@[simps!] def setReq (c : Side) (req : Option UnionReq) : Session :=
  s.setConn c { s.conn c with req := req }

@[simps!] def setTimer (c : Side) (on : Bool) : Session :=
  s.setConn c { s.conn c with timer := on }

/-- A call of `conn_read`. -/
@[simps!] def reading (c : Side) : Session :=
  s.setConn c { s.conn c with rdstate := .busy, reads := (s.conn c).reads + 1 }

/-- A call of `conn_write`. -/
@[simps!] def writing (c : Side) (src : Option Side) (data : List UInt8) : Session :=
  (s.setConn c { s.conn c with
    wrstate := .busy
    writes := (s.conn c).writes ++ [⟨src, data⟩] }).note (.write c data)

/-- A call of `conn_close`. -/
@[simps!] def closing (c : Side) : Session :=
  s.setConn c { s.conn c with
    rdstate := .dead
    wrstate := .dead
    timer := false
    reads := 0
    closing := fun _ => true }

/-- The end of `do_next`. -/
def enter (st : SessState) : Session :=
  if st = .dead then { s with state := st, freed := true }.note .free else { s with state := st }

/-- `s5_parse(parser, &data, &size)`, with what has been read from the client. -/
def parsed : S5Err × List UInt8 × S5Ctx :=
  s5Parse s.parser ((s.conn .incoming).t.buf.take (s.conn .incoming).result.toNat)

end Session

/-- `ASSERT`; it is on in both targets of the project file. -/
def assert (p : Prop) [Decidable p] : Act Unit := if p then pure () else throw .assert

/-- `ASSERT` on `rdstate` or `wrstate`. -/
def assertState (p : Prop) [Decidable p] : Act Unit :=
  if p then pure () else throw .assertState

def check (p : Prop) [Decidable p] : Act Unit := if p then pure () else throw .check

variable (ret : Returns)

/-! ### The operations on a connection -/

def connTimerReset (c : Side) : Act Unit := do
  check (ret.timerStart c = 0)
  modify (·.setTimer c true)

def connRead (c : Side) : Act Unit := do
  assertState (((← get).conn c).rdstate = .stop)
  check (ret.readStart c = 0)
  modify (·.reading c)
  connTimerReset ret c

def connWrite (c : Side) (src : Option Side) (data : List UInt8) : Act Unit := do
  let s ← get
  assertState ((s.conn c).wrstate = .stop ∨ (s.conn c).wrstate = .done)
  check (ret.write c = 0)
  modify (·.writing c src data)
  connTimerReset ret c

def connGetaddrinfo (c : Side) (hostname : ℕ → UInt8) : Act Unit := do
  check (ret.getaddrinfo = 0)
  modify fun s =>
    ((s.note (.lookup hostname)).setScratch c ⟨[], ret.stale⟩).setReq c (some .addrinfo)
  connTimerReset ret c

/-- `uv_tcp_connect` fills in the request only if it returns `0`. -/
def connConnect (c : Side) : Act ℤ := do
  let a := ((← get).conn c).t.addr
  assert (a.isInet)
  connTimerReset ret c
  modify (·.note (.connect a ret.connect))
  if ret.connect = 0 then
    if ((← get).conn c).req ≠ none then throw .undefined
    modify fun s => (s.setScratch c ⟨[], ret.stale⟩).setReq c (some .connect)
  return ret.connect

def connClose (c : Side) : Act Unit := do
  let s ← get
  assertState ((s.conn c).rdstate ≠ .dead)
  assertState ((s.conn c).wrstate ≠ .dead)
  modify (·.closing c)

/-- `conn_cycle`; the value says that the session is to be killed. -/
def connCycle (a b : Side) : Act Bool := do
  let s ← get
  if (s.conn a).result < 0 then return true
  if (s.conn b).result < 0 then return true
  if (s.conn a).wrstate = .done then
    modify (·.setWr a .stop)
  if ((← get).conn a).wrstate = .stop then
    if (s.conn b).rdstate = .stop then connRead ret b
    else if (s.conn b).rdstate = .done then
      connWrite ret a (some b) ((s.conn b).t.buf.take (s.conn b).result.toNat)
      modify (·.setRd b .stop)
  return false

/-! ### The functions of the session states -/

def doKill : Act SessState := do
  let s ← get
  if s.state.isAlmostDead then return s.state
  modify (·.note .kill)
  -- `uv_cancel`: a lookup that is cancelled still calls back.
  let newState := if s.state = .reqLookup then .almostDead0 else .almostDead1
  connClose .incoming
  connClose .outgoing
  return newState

def doHandshake : Act SessState := do
  let s ← get
  assertState ((s.conn .incoming).rdstate = .done)
  assertState ((s.conn .incoming).wrstate = .stop)
  modify (·.setRd .incoming .stop)
  if (s.conn .incoming).result < 0 then return (← doKill)
  let parsed := s.parsed
  modify (·.setParser parsed.2.2)
  if parsed.1 = .ok then
    connRead ret .incoming
    return .handshake
  if parsed.2.1 ≠ [] then return (← doKill)
  if parsed.1 ≠ .authSelect then return (← doKill)
  if s5AuthMethods parsed.2.2 &&& S5AuthMethod.none.bit ≠ 0 ∧ canAuthNone then
    modify (·.setParser (s5SelectAuth parsed.2.2 .none).2)
    connWrite ret .incoming none [5, 0]
    return .reqStart
  connWrite ret .incoming none [5, 255]
  return .kill

def doHandshakeAuth : Act SessState := throw .unreachable

def doReqStart : Act SessState := do
  let s ← get
  assertState ((s.conn .incoming).rdstate = .stop)
  assertState ((s.conn .incoming).wrstate = .done)
  modify (·.setWr .incoming .stop)
  if (s.conn .incoming).result < 0 then return (← doKill)
  connRead ret .incoming
  return .reqParse

/-- The four `ASSERT`s that nothing is going on. -/
def assertStopped : Act Unit := do
  let s ← get
  assertState ((s.conn .incoming).rdstate = .stop)
  assertState ((s.conn .incoming).wrstate = .stop)
  assertState ((s.conn .outgoing).rdstate = .stop)
  assertState ((s.conn .outgoing).wrstate = .stop)

def doReqConnectStart : Act SessState := do
  assertStopped
  let a := ((← get).conn .outgoing).t.addr
  modify (·.note (.access a (canAccess a)))
  if !canAccess a then
    connWrite ret .incoming none [5, 2, 0, 1, 0, 0, 0, 0, 0, 0]
    return .kill
  let err ← connConnect ret .outgoing
  if err ≠ 0 then return (← doKill)
  return .reqConnect

/-- The address in the request, as `do_req_parse` stores it in `outgoing->t`. -/
def requestAddr (parser : S5Ctx) : SockAddr :=
  if parser.atyp = .ipv4 then .inet (fun i => parser.daddr i) parser.dport
  else .inet6 (fun i => parser.daddr i) parser.dport 0 0

def doReqParse : Act SessState := do
  let s ← get
  assertState ((s.conn .incoming).rdstate = .done)
  assertState ((s.conn .incoming).wrstate = .stop)
  assertState ((s.conn .outgoing).rdstate = .stop)
  assertState ((s.conn .outgoing).wrstate = .stop)
  modify (·.setRd .incoming .stop)
  if (s.conn .incoming).result < 0 then return (← doKill)
  let parsed := s.parsed
  let parser := parsed.2.2
  modify (·.setParser parser)
  if parsed.1 = .ok then
    connRead ret .incoming
    return .reqParse
  if parsed.2.1 ≠ [] then return (← doKill)
  if parsed.1 ≠ .execCmd then return (← doKill)
  if parser.cmd = .tcpBind then return (← doKill)
  if parser.cmd = .udpAssoc then return (← doKill)
  assert (parser.cmd = .tcpConnect)
  modify (·.note (.request parser.atyp parser.daddr parser.dport))
  if parser.atyp = .host then
    connGetaddrinfo ret .outgoing parser.daddr
    return .reqLookup
  modify (·.setScratch .outgoing ⟨[], requestAddr parser⟩)
  doReqConnectStart ret

def doReqLookup : Act SessState := do
  assertStopped
  let s ← get
  if (s.conn .outgoing).result < 0 then
    connWrite ret .incoming none [5, 4, 0, 1, 0, 0, 0, 0, 0, 0]
    return .kill
  let a := (s.conn .outgoing).t.addr
  if !a.isInet then throw .unreachable
  modify (·.setScratch .outgoing ⟨[], a.setPort s.parser.dport⟩)
  doReqConnectStart ret

def portBytes (port : UInt16) : List UInt8 := [(port >>> 8).toUInt8, port.toUInt8]

/-- The reply with the local address. -/
def successReply : SockAddr → Option (List UInt8)
  | .inet addr port => some ([5, 0, 0, 1] ++ List.ofFn addr ++ portBytes port)
  | .inet6 addr port _ _ => some ([5, 0, 0, 4] ++ List.ofFn addr ++ portBytes port)
  | .other _ => none

def doReqConnect : Act SessState := do
  assertStopped
  let s ← get
  if (s.conn .outgoing).result = 0 then
    check (ret.getsockname = 0)
    match successReply ret.sockname with
    | none => throw .unreachable
    | some reply =>
      modify (·.setScratch .incoming ⟨reply, ret.stale⟩)
      connWrite ret .incoming (some .incoming) reply
      return .proxyStart
  else
    connWrite ret .incoming none [5, 5, 0, 1, 0, 0, 0, 0, 0, 0]
    return .kill

def doProxyStart : Act SessState := do
  let s ← get
  assertState ((s.conn .incoming).rdstate = .stop)
  assertState ((s.conn .incoming).wrstate = .done)
  assertState ((s.conn .outgoing).rdstate = .stop)
  assertState ((s.conn .outgoing).wrstate = .stop)
  modify (·.setWr .incoming .stop)
  if (s.conn .incoming).result < 0 then return (← doKill)
  connRead ret .incoming
  connRead ret .outgoing
  modify (·.note .proxy)
  return .proxy

def doProxy : Act SessState := do
  if ← connCycle ret .incoming .outgoing then return (← doKill)
  if ← connCycle ret .outgoing .incoming then return (← doKill)
  return .proxy

def doAlmostDead : Act SessState := do
  let s ← get
  assert s.state.isAlmostDead
  return s.state.succ

/-- The `switch` of `do_next`. -/
def doState : SessState → Act SessState
  | .handshake => doHandshake ret
  | .handshakeAuth => doHandshakeAuth
  | .reqStart => doReqStart ret
  | .reqParse => doReqParse ret
  | .reqLookup => doReqLookup ret
  | .reqConnect => doReqConnect ret
  | .proxyStart => doProxyStart ret
  | .proxy => doProxy ret
  | .kill => doKill
  | .almostDead0 | .almostDead1 | .almostDead2 | .almostDead3 | .almostDead4 => doAlmostDead
  | .dead => throw .unreachable

def doNext : Act Unit := do
  let s ← get
  assert (s.state ≠ .dead)
  let newState ← doState ret s.state
  modify (·.enter newState)

/-! ### The callbacks -/

/-- `conn_timer_expire`; libuv calls it without the second argument it reads. -/
def connTimerExpire (c : Side) (status : ℤ) : Act Unit := do
  check (status = 0)
  modify (·.setResult c etimedout)
  doNext ret

def connGetaddrinfoDone (c : Side) (status : ℤ) (ai : SockAddr) : Act Unit := do
  modify fun s => (s.setResult c status).note (.resolved status ai)
  if status = 0 then
    if !ai.isInet then throw .unreachable
    modify (·.setScratch c ⟨[], ai⟩)
  doNext ret

def connConnectDone (c : Side) (status : ℤ) : Act Unit := do
  modify (·.note (.connected status))
  if status = ecanceled then return
  modify (·.setResult c status)
  doNext ret

/-- `conn_alloc` and `conn_read_done`; `own` says that libuv passes on the buffer it was
given, which `data` has been read into. -/
def connReadDone (c : Side) (own : Bool) (nread : ℤ) (data : List UInt8) : Act Unit := do
  assert own
  let s ← get
  assertState ((s.conn c).rdstate = .busy)
  modify fun s => (((s.setRd c .done).setResult c nread).setScratch c ⟨data, ret.stale⟩).note
    (.read c data)
  doNext ret

def connWriteDone (c : Side) (status : ℤ) : Act Unit := do
  if status = ecanceled then return
  let s ← get
  assertState ((s.conn c).wrstate = .busy)
  modify fun s => (s.setWr c .done).setResult c status
  doNext ret

def connCloseDone (c : Side) (h : Part) : Act Unit := do
  modify (·.note (.closed c h))
  doNext ret

/-! ### Runs -/

/-- `client_finish_init`: the session before its first read; `t` is what `malloc` left. -/
def fresh (t : Side → Scratch) : Session where
  state := .handshake
  parser := s5Init
  conn c :=
    { rdstate := .stop
      wrstate := .stop
      result := 0
      t := t c
      timer := false
      reads := 0
      writes := []
      req := none
      closing := fun _ => false }
  freed := false
  log := []

inductive Event where
  | timerExpire (c : Side) (status : ℤ) : Event
  | lookupDone (status : ℤ) (ai : SockAddr) : Event
  | connectDone (status : ℤ) : Event
  | readDone (c : Side) (own : Bool) (nread : ℤ) (data : List UInt8) : Event
  | writeDone (c : Side) (status : ℤ) : Event
  | closeDone (c : Side) (h : Part) : Event

namespace Session

variable (s : Session)

/-- What libuv can report. A lookup has the status `0` or an error; libuv does not read from a
stream that is connecting, and the callbacks of the requests of a handle run before that of
`uv_close`. -/
def Pending : Event → Prop
  | .timerExpire c _ => (s.conn c).timer = true
  | .lookupDone status _ => (s.conn .outgoing).req = some .addrinfo ∧ status ≤ 0
  | .connectDone _ => (s.conn .outgoing).req = some .connect
  | .readDone c _ nread data =>
    0 < (s.conn c).reads ∧ (s.conn c).req ≠ some .connect ∧
      (nread = data.length ∧ data.length ≤ 2048 ∨ nread < 0 ∧ data = [])
  | .writeDone c _ => (s.conn c).writes ≠ []
  | .closeDone c h =>
    (s.conn c).closing h = true ∧
      (h = .handle → (s.conn c).writes = [] ∧ (s.conn c).req ≠ some .connect)

instance (e : Event) : Decidable (s.Pending e) :=
  match e with
  | .timerExpire c _ => inferInstanceAs (Decidable ((s.conn c).timer = true))
  | .lookupDone _ _ => inferInstanceAs (Decidable (_ = _ ∧ _))
  | .connectDone _ => inferInstanceAs (Decidable ((s.conn .outgoing).req = some .connect))
  | .readDone _ _ _ _ => inferInstanceAs (Decidable (_ ∧ _ ∧ (_ ∧ _ ∨ _ ∧ _)))
  | .writeDone c _ => inferInstanceAs (Decidable ((s.conn c).writes ≠ []))
  | .closeDone _ _ => inferInstanceAs (Decidable (_ = true ∧ (_ → _ ∧ _)))

/-- What libuv no longer holds when it reports. -/
def deliver : Event → Session
  | .timerExpire c _ => s.setTimer c false
  | .lookupDone _ _ => s.setReq .outgoing none
  | .connectDone _ => s.setReq .outgoing none
  | .readDone c _ _ _ => s.setConn c { s.conn c with reads := (s.conn c).reads - 1 }
  | .writeDone c _ => s.setConn c { s.conn c with writes := (s.conn c).writes.tail }
  | .closeDone c h =>
    s.setConn c { s.conn c with closing := update (s.conn c).closing h false }

end Session

/-- The callback that an event runs; all of them are in the memory of the session. -/
def onEvent (e : Event) : Act Unit := do
  modify (·.deliver e)
  if (← get).freed then throw .undefined
  match e with
  | .timerExpire c status => connTimerExpire ret c status
  | .lookupDone status ai => connGetaddrinfoDone ret .outgoing status ai
  | .connectDone status => connConnectDone ret .outgoing status
  | .readDone c own nread data => connReadDone ret c own nread data
  | .writeDone c status => connWriteDone ret c status
  | .closeDone c h => connCloseDone ret c h

/-- The sessions that `client_finish_init` starts. -/
def Init (s : Session) : Prop := ∃ ret t, connRead ret .incoming (fresh t) = .ok () s

/-- A step: an event that libuv reports, with a callback that returns. -/
def step (s : Session) (e : Returns × Event) : Option Session :=
  if s.Pending e.2 then
    match onEvent e.1 e.2 s with
    | .ok _ t => some t
    | .error _ _ => none
  else none

def Step (s : Session) (e : Returns × Event) (t : Session) : Prop := step s e = some t

def StepIf (cond : Session → Returns → Event → Prop) (s : Session) (e : Returns × Event)
    (t : Session) : Prop :=
  cond s e.1 e.2 ∧ Step s e t

theorem step_eq_some {s t : Session} {e : Returns × Event} :
    step s e = some t ↔ s.Pending e.2 ∧ onEvent e.1 e.2 s = .ok () t := by
  unfold step
  split <;> rename_i hp
  · cases onEvent e.1 e.2 s <;> simp [hp]
  · simp [hp]

end LibuvWorks.Socks5.Client
