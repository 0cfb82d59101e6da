import LibuvWorks.TcpLedger
import LibuvWorks.Unix.Accept
import LibuvWorks.Unix.Connect
import LibuvWorks.Unix.Shutdown

/-!
# Binding, listening and connecting on unix

What the kernel answers is part of the calls, as error numbers where zero is success. Apart from
the calls of the user, the loop completes a request to connect.
-/
namespace LibuvWorks.Unix

open Transition

/-- `-EALREADY` -/
def uvEalready : ℤ := -114

/-- `-EADDRINUSE` -/
def uvEaddrinuse : ℤ := -98

def eaddrinuse : ℕ := 98

def eafnosupport : ℕ := 97

/-- What `maybe_new_socket` meets with: the result of `uv__socket`, which is an error if it is
negative, and the errors of the options that are set. -/
structure SocketCalls where
  socket : ℤ
  nodelay : ℕ
  keepalive : ℕ

/-- The errors of the calls in `uv__tcp_bind`. -/
structure BindCalls where
  reuseaddr : ℕ
  v6only : ℕ
  bind : ℕ

/-- The fields of `uv_tcp_t` that are read or written, and the ledger. -/
structure UvTcp where
  fd : ℤ
  nodelay : Bool
  keepalive : Bool
  readable : Bool
  writable : Bool
  bound : Bool
  ipv6 : Bool
  singleAccept : Bool
  listening : Bool
  connectReq : Bool
  delayedError : ℤ
  ledger : TcpLedger

namespace UvTcp

inductive Event where
  | bind (family : AddrFamily) (ipv6only : Bool) (sock : SocketCalls) (calls : BindCalls)
  | listen (single : Bool) (sock : SocketCalls) (listen : ℕ)
  | connect (family : AddrFamily) (sock : SocketCalls) (connect : ℕ)
  /-- The loop completes a request to connect. -/
  | connected (soError : ℕ)

variable (s : UvTcp)

/-- `uv__stream_open`, for a descriptor that is not negative -/
def uvStreamOpen (fd : ℤ) (readable writable : Bool) (sock : SocketCalls) : UvTcp × ℤ :=
  if s.fd ≠ -1 ∧ s.fd ≠ fd then (s, uvEbusy)
  else
    let s := { s with readable := s.readable || readable, writable := s.writable || writable }
    if s.nodelay = true ∧ sock.nodelay ≠ 0 then (s, -sock.nodelay)
    else if s.keepalive = true ∧ sock.keepalive ≠ 0 then (s, -sock.keepalive)
    else ({ s with fd := fd }, 0)

/-- `maybe_new_socket`, for a family that is not `AF_UNSPEC` -/
def maybeNewSocket (readable writable : Bool) (sock : SocketCalls) : UvTcp × ℤ :=
  if s.fd ≠ -1 then
    ({ s with readable := s.readable || readable, writable := s.writable || writable }, 0)
  else if sock.socket < 0 then (s, sock.socket)
  else s.uvStreamOpen sock.socket readable writable sock

/-- The call of `bind` in `uv__tcp_bind`, and the rest -/
def bindSocket (family : AddrFamily) (errno : ℕ) : UvTcp × ℤ :=
  if errno ≠ 0 ∧ errno ≠ eaddrinuse then
    (s, if errno = eafnosupport then uvEinval else -errno)
  else
    ({ s with
      delayedError := -errno
      bound := true
      ipv6 := s.ipv6 || family = .inet6
      ledger := if errno = eaddrinuse then s.ledger.refuse else s.ledger }, 0)

/-- `uv_tcp_bind` and `uv__tcp_bind` -/
def uvTcpBind (family : AddrFamily) (ipv6only : Bool) (sock : SocketCalls) (calls : BindCalls) :
    UvTcp × ℤ :=
  if family = .other then (s, uvEinval)
  else if ipv6only = true ∧ family ≠ .inet6 then (s, uvEinval)
  else
    let (s, err) := s.maybeNewSocket true true sock
    if err ≠ 0 then (s, err)
    else if calls.reuseaddr ≠ 0 then (s, -calls.reuseaddr)
    else if family = .inet6 ∧ calls.v6only ≠ 0 then (s, -calls.v6only)
    else s.bindSocket family calls.bind

def done (use : TcpUse) (result : ℤ) (performed : Bool) : UvTcp :=
  { s with ledger := s.ledger.call use result performed }

/-- `uv_listen` and `uv_tcp_listen`; `single` is `UV_TCP_SINGLE_ACCEPT` of the environment. -/
def uvTcpListen (single : Bool) (sock : SocketCalls) (errno : ℕ) : UvTcp :=
  if s.delayedError ≠ 0 then s.done .listen s.delayedError false
  else
    let s := { s with singleAccept := s.singleAccept || single }
    let (s, err) := s.maybeNewSocket true false sock
    if err ≠ 0 then s.done .listen err false
    else if errno ≠ 0 then s.done .listen (-errno) true
    else { s with bound := true, listening := true }.done .listen 0 true

/-- `uv_tcp_connect` and `uv__tcp_connect`, where `errno` is the error of the first call of
`connect` that is not interrupted. -/
def uvTcpConnect (family : AddrFamily) (sock : SocketCalls) (errno : ℕ) : UvTcp :=
  if family = .other then s.done .connect uvEinval false
  else if s.connectReq = true then s.done .connect uvEalready false
  else
    let (s, err) := s.maybeNewSocket true true sock
    if err ≠ 0 then s.done .connect err false
    else
      let s := { s with delayedError := if errno = econnrefused then -econnrefused else 0 }
      if errno = 0 ∨ errno = einprogress ∨ errno = econnrefused then
        { s with connectReq := true }.done .connect 0 true
      else s.done .connect (-errno) true

/-- `uv__stream_connect`, up to the callback -/
def uvStreamConnect (soError : ℕ) : UvTcp :=
  if s.delayedError ≠ 0 then
    { s with
      delayedError := 0
      connectReq := if s.delayedError = uvEinprogress then s.connectReq else false }
  else if soError = einprogress then s
  else { s with connectReq := false }

def next : Event → UvTcp
  | .bind family ipv6only sock calls => (s.uvTcpBind family ipv6only sock calls).1
  | .listen single sock errno => s.uvTcpListen single sock errno
  | .connect family sock errno => s.uvTcpConnect family sock errno
  | .connected soError => s.uvStreamConnect soError

def Enabled : Event → Prop
  | .connected _ => s.connectReq = true
  | _ => True

instance : DecidablePred s.Enabled := fun e => by
  cases e <;> unfold Enabled <;> infer_instance

def step (e : Event) : Option UvTcp := if s.Enabled e then some (s.next e) else none

def fresh (handle : UvTcp) : UvTcp := { handle with ledger := .empty }

abbrev Step (s : UvTcp) (e : Event) (t : UvTcp) : Prop := s.step e = some t

end UvTcp

end LibuvWorks.Unix
