import LibuvWorks.Lib.Transition
import LibuvWorks.TcpLedger

/-!
# Binding, listening and connecting on Windows

The errors of the system are positive, and those of libuv negative. What the system answers is part
of the calls, as errors where zero is success. The requests that accept connections are queued when
`listen` has succeeded; they are left out.
-/
namespace LibuvWorks.Win

open Transition

def uvTranslateSysError (sysErrno : ℤ) : ℤ :=
  if sysErrno ≤ 0 then sysErrno
  else
    match sysErrno.toNat with
    | 998 | 10013 => -4092
    | 1227 | 10048 => -4091
    | 10049 => -4090
    | 10047 => -4089
    | 10035 => -4088
    | 10037 => -4084
    | 1004 | 6 => -4083
    | 33 | 231 | 32 => -4082
    | 995 | 10004 => -4081
    | 1113 => -4080
    | 1236 | 10053 => -4079
    | 1225 | 10061 => -4078
    | 64 | 10054 => -4077
    | 183 | 80 => -4075
    | 111 | 10014 => -4074
    | 1232 | 10065 => -4073
    | 122 | 13 | 87 | 1464 | 10022 | 10046 | 10044 => -4071
    | 1102 | 1111 | 23 | 1166 | 1165 | 1393 | 1129 | 1101 | 31 | 1106 | 1117 | 1104 | 205 | 110
    | 1103 | 156 => -4070
    | 10056 => -4069
    | 1921 => -4067
    | 4 | 10024 => -4066
    | 10040 => -4065
    | 206 => -4064
    | 1231 | 10051 => -4062
    | 10055 => -4060
    | 161 | 267 | 2 | 123 | 15 | 4392 | 126 | 3 | 11001 | 11004 => -4058
    | 8 | 14 => -4057
    | 82 | 112 | 277 | 1100 | 39 => -4055
    | 2250 | 10057 => -4053
    | 145 => -4051
    | 10038 => -4050
    | 50 => -4049
    | 109 => -4095
    | 5 | 1314 => -4048
    | 230 | 232 | 233 | 10058 => -4047
    | 10043 => -4045
    | 19 => -4043
    | 121 | 10060 => -4039
    | 17 => -4037
    | 1 => -4068
    | 208 => -4093
    | _ => -4094

theorem uvTranslateSysError_neg {e : ℤ} (he : e ≠ 0) : uvTranslateSysError e < 0 := by
  unfold uvTranslateSysError
  split
  · omega
  · split <;> decide

def uvEinval : ℤ := -4071

def uvEaddrinuse : ℤ := -4091

def uvEbusy : ℤ := -4082

def errorInvalidParameter : ℤ := 87

def errorInvalidFunction : ℕ := 1

def wsaeaddrinuse : ℤ := 10048

def wsaeafnosupport : ℤ := 10047

def wsaeisconn : ℤ := 10056

/-- What `uv_tcp_set_socket` meets with; `modes` is nothing if `SetFileCompletionNotificationModes`
is not there, or the protocol is not that of the system. -/
structure SetSocketCalls where
  nonblocking : ℕ
  inherit : ℕ
  iocp : ℕ
  modes : Option ℕ
  nodelay : ℕ
  keepalive : ℕ

/-- What `uv_tcp_try_bind` meets with. -/
structure BindCalls where
  socket : ℕ
  set : SetSocketCalls
  bind : ℕ

/-- The fields of `uv_tcp_t` that are read or written, and the ledger. The last two but one say
whether `AcceptEx` and `ConnectEx` were found before. -/
structure UvTcp where
  socket : Bool
  emulateIocp : Bool
  syncBypassIocp : Bool
  nodelay : Bool
  keepalive : Bool
  ipv6 : Bool
  bound : Bool
  listening : Bool
  reading : Bool
  sharedTcpSocket : Bool
  delayedError : ℤ
  funcAcceptex : Bool
  funcConnectex : Bool
  ledger : TcpLedger

namespace UvTcp

inductive Event where
  | bind (family : AddrFamily) (ipv6only : Bool) (calls : BindCalls)
  | listen (backlog : ℤ) (calls : BindCalls) (acceptex : Bool) (listen : ℕ)
  | connect (family : AddrFamily) (calls : BindCalls) (connectex : Bool) (connect : ℕ)
  /-- Reading is started or stopped. -/
  | read (on : Bool)

variable (s : UvTcp)

/-- The end of `uv_tcp_set_socket` -/
def setOptions (c : SetSocketCalls) (family : AddrFamily) : Option (UvTcp × ℤ) :=
  if s.nodelay = true ∧ c.nodelay ≠ 0 then some (s, c.nodelay)
  else if s.keepalive = true ∧ c.keepalive ≠ 0 then some (s, c.keepalive)
  else if family ≠ .inet6 ∧ s.ipv6 = true then none
  else some ({ s with socket := true, ipv6 := s.ipv6 || family = .inet6 }, 0)

def uvTcpSetSocket (c : SetSocketCalls) (family : AddrFamily) (imported : Bool) :
    Option (UvTcp × ℤ) :=
  if s.socket = true then some (s, uvEbusy)
  else if c.nonblocking ≠ 0 then some (s, c.nonblocking)
  else if c.inherit ≠ 0 then some (s, c.inherit)
  else if c.iocp ≠ 0 ∧ imported = false then some (s, c.iocp)
  else
    let emulateIocp := s.emulateIocp || c.iocp ≠ 0
    let modes := if emulateIocp = true then none else c.modes
    let s := { s with emulateIocp, syncBypassIocp := s.syncBypassIocp || modes == some 0 }
    match modes.filter fun e => e ≠ 0 ∧ e ≠ errorInvalidFunction with
    | some e => some (s, e)
    | none => s.setOptions c family

/-- The start of `uv_tcp_try_bind` -/
def openSocket (family : AddrFamily) (ipv6only : Bool) (c : BindCalls) : Option (UvTcp × ℤ) :=
  if s.socket = true then some (s, 0)
  else if ipv6only = true ∧ family ≠ .inet6 then some (s, errorInvalidParameter)
  else if c.socket ≠ 0 then some (s, c.socket)
  else s.uvTcpSetSocket c.set family false

/-- The call of `bind` in `uv_tcp_try_bind`, and the rest -/
def bindSocket (errno : ℕ) : UvTcp × ℤ :=
  if (errno : ℤ) = wsaeaddrinuse then
    ({ s with delayedError := errno, bound := true, ledger := s.ledger.refuse }, 0)
  else if errno ≠ 0 then (s, errno)
  else ({ s with bound := true }, 0)

def uvTcpTryBind (family : AddrFamily) (ipv6only : Bool) (c : BindCalls) : Option (UvTcp × ℤ) :=
  (s.openSocket family ipv6only c).map fun (s, err) =>
    if err ≠ 0 then (s, err) else s.bindSocket c.bind

/-- `uv_tcp_bind` and `uv__tcp_bind` -/
def uvTcpBind (family : AddrFamily) (ipv6only : Bool) (c : BindCalls) : Option (UvTcp × ℤ) :=
  if family = .other then some (s, uvEinval)
  else (s.uvTcpTryBind family ipv6only c).map fun (s, err) => (s, uvTranslateSysError err)

/-- A handle that was not bound is bound to any address before it listens or connects. -/
def bindAny (family : AddrFamily) (c : BindCalls) : Option (UvTcp × ℤ) :=
  if s.bound = true then some (s, 0)
  else
    (s.uvTcpTryBind family false c).map fun (s, err) =>
      (s, if err ≠ 0 then err else s.delayedError)

def done (use : TcpUse) (err : ℤ) (performed : Bool) : UvTcp :=
  { s with ledger := s.ledger.call use (uvTranslateSysError err) performed }

/-- `uv_tcp_listen`, from the search for `AcceptEx` on; a socket that another process has shared
listens already. -/
def listenSocket (acceptex : Bool) (errno : ℕ) : UvTcp :=
  if s.funcAcceptex = false ∧ acceptex = false then s.done .listen wsaeafnosupport false
  else
    let s := { s with funcAcceptex := true }
    if s.sharedTcpSocket = false ∧ errno ≠ 0 then s.done .listen errno true
    else { s with listening := true }.done .listen 0 true

/-- `uv_listen` and `uv_tcp_listen` -/
def uvTcpListen (backlog : ℤ) (c : BindCalls) (acceptex : Bool) (errno : ℕ) : Option UvTcp :=
  if backlog ≤ 0 then none
  else if s.reading = true then some (s.done .listen wsaeisconn false)
  else if s.delayedError ≠ 0 then some (s.done .listen s.delayedError false)
  else
    (s.bindAny .inet c).map fun (s, err) =>
      if err ≠ 0 then s.done .listen err false else s.listenSocket acceptex errno

/-- `uv_tcp_try_connect`, from the search for `ConnectEx` on; an operation that is pending is not an
error. -/
def connectSocket (connectex : Bool) (errno : ℕ) : UvTcp :=
  if s.funcConnectex = false ∧ connectex = false then s.done .connect wsaeafnosupport false
  else { s with funcConnectex := true }.done .connect errno true

/-- `uv_tcp_connect`, `uv__tcp_connect` and `uv_tcp_try_connect` -/
def uvTcpConnect (family : AddrFamily) (c : BindCalls) (connectex : Bool) (errno : ℕ) :
    Option UvTcp :=
  if family = .other then some (s.done .connect uvEinval false)
  else if s.delayedError ≠ 0 then some (s.done .connect s.delayedError false)
  else
    (s.bindAny family c).map fun (s, err) =>
      if err ≠ 0 then s.done .connect err false else s.connectSocket connectex errno

def next : Event → Option UvTcp
  | .bind family ipv6only calls => (s.uvTcpBind family ipv6only calls).map (·.1)
  | .listen backlog calls acceptex errno => s.uvTcpListen backlog calls acceptex errno
  | .connect family calls connectex errno => s.uvTcpConnect family calls connectex errno
  | .read on => some { s with reading := on }

def Enabled : Event → Prop
  | .listen backlog _ _ _ => 0 < backlog
  | _ => True

instance : DecidablePred Enabled := fun e => by
  cases e <;> unfold Enabled <;> infer_instance

def step (e : Event) : Option UvTcp := if Enabled e then s.next e else none

/-- Any handle, with a ledger that was just begun; only one with a socket is marked for IPv6. -/
def Init (s : UvTcp) : Prop := s.ledger = .empty ∧ (s.socket = false → s.ipv6 = false)

abbrev Step (s : UvTcp) (e : Event) (t : UvTcp) : Prop := s.step e = some t

end UvTcp

end LibuvWorks.Win
