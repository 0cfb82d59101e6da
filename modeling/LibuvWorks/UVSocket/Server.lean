import LibuvWorks.Lib.Transition
import LibuvWorks.Lib.History
import Mathlib.Algebra.Group.Int.Defs
import Mathlib.Data.Int.Basic
import Mathlib.Data.List.Nodup

/-!
# The clients of a server: `CTCPServer`

A `Server` is a `CTCPServer` with every `CSockData` it has made: `data` numbers them in the
order of their creation. The handle of a `CSockData` lives in memory that its destructor
frees, so it may only be deleted when libuv is done with the handle.
-/
namespace LibuvWorks.UVSocket

open Function (update)

/-- What libuv knows of a handle; `closing` says whether `uv_close` was given a callback. -/
inductive Tcp where
  | unset : Tcp
  | opened : Tcp
  | closing (cb : Bool) : Tcp
  | closed : Tcp
  deriving DecidableEq

namespace Server

/-- What happened to a `CSockData` and to its `client_handle`. -/
inductive Obs where
  | create (data : ℕ) : Obs
  | uvClose (data : ℕ) : Obs
  | closed (data : ℕ) : Obs
  | delete (data : ℕ) : Obs
  deriving DecidableEq

end Server

/-- `CTCPServer`: `isinit_`, `clients_list_` and the static counter of `GetAvailalClientID`;
for each `CSockData` its `client_id`, its handle and whether that is being read; and what
happened, the latest first. -/
structure Server where
  isinit : Bool
  clients : List (ℤ × ℕ)
  id : ℤ
  created : ℕ
  clientId : ℕ → ℤ
  handle : ℕ → Tcp
  reading : ℕ → Bool
  log : List Server.Obs

namespace Server

variable (s : Server)

@[simps] def note (o : Obs) : Server := { s with log := o :: s.log }

@[simps] def setHandle (data : ℕ) (h : Tcp) : Server :=
  { s with handle := update s.handle data h }

/-- `uv_close` of `client_handle`; it stops reading. -/
@[simps!] def uvClose (data : ℕ) (cb : Bool) : Server :=
  ({ s with reading := update s.reading data false }.setHandle data (.closing cb)).note
    (.uvClose data)

/-- `delete` of a `CSockData` -/
@[simps!] def delete (data : ℕ) : Server := s.note (.delete data)

/-- `CTCPServer::close` -/
def close : Server :=
  { s.clients.foldl (fun s client => s.uvClose client.2 true) s with
    clients := []
    isinit := false }

/-- `++s_id`, as it is compiled. -/
def nextId (id : ℤ) : ℤ := if id = 2 ^ 31 - 1 then -2 ^ 31 else id + 1

/-- `std::map::insert`: an entry with the same key stays. -/
def insert (clients : List (ℤ × ℕ)) (id : ℤ) (data : ℕ) : List (ℤ × ℕ) :=
  if clients.any (fun client => client.1 = id) then clients else clients ++ [(id, data)]

/-- What the calls of `acceptConnection` into libuv return. -/
structure Returns where
  tcpInit : ℤ
  accept : ℤ
  readStart : ℤ

/-- `new CSockData(clientid)`, with the next id. -/
@[simps!] def create : Server :=
  { s with
    id := nextId s.id
    created := s.created + 1
    clientId := update s.clientId s.created (nextId s.id) }.note (.create s.created)

/-- `acceptConnection`; `closes` says that `newconcb_` calls `close`. -/
def acceptConnection (_status : ℤ) (ret : Returns) (closes : Bool) : Server :=
  let data := s.created
  let s := s.create
  if ret.tcpInit ≠ 0 then s.delete data
  else
    let s := s.setHandle data .opened
    if ret.accept ≠ 0 then (s.uvClose data false).delete data
    else
      let s := { s with clients := insert s.clients s.id data }
      let s := if closes then s.close else s
      if s.handle data = .opened ∧ ret.readStart = 0 then
        { s with reading := update s.reading data true }
      else s

def deleteClient (clientid : ℤ) : Server :=
  match s.clients.find? (fun client => client.1 = clientid) with
  | none => s
  | some client =>
    let s := s.uvClose client.2 true
    { s with clients := s.clients.filter (fun client => client.1 ≠ clientid) }

/-- `AfterServerRecv`; `closes` says that `recvcb_` calls `close`. -/
def afterServerRecv (data : ℕ) (nread : ℤ) (closes : Bool) : Server :=
  if nread < 0 then s.deleteClient (s.clientId data)
  else if nread = 0 then s
  else if closes then s.close else s

def afterClientClose (data : ℕ) : Server := s.delete data

inductive Event where
  | start (init : Bool) : Event
  | close : Event
  | connection (status : ℤ) (ret : Returns) (closes : Bool) : Event
  | recv (data : ℕ) (nread : ℤ) (closes : Bool) : Event
  | closed (data : ℕ) : Event
  /-- Another server takes an id. -/
  | otherId : Event

/-- What libuv can report: connections while it listens, what it reads from an open handle,
and that it has closed one. -/
def Pending : Event → Prop
  | .start _ => True
  | .close => True
  | .connection _ _ _ => s.isinit = true
  | .recv data _ _ => s.handle data = .opened ∧ s.reading data = true
  | .closed data => s.handle data = .closing true ∨ s.handle data = .closing false
  | .otherId => True

instance (e : Event) : Decidable (s.Pending e) :=
  match e with
  | .start _ | .close | .otherId => inferInstanceAs (Decidable True)
  | .connection _ _ _ => inferInstanceAs (Decidable (_ = _))
  | .recv _ _ _ => inferInstanceAs (Decidable (_ ∧ _))
  | .closed _ => inferInstanceAs (Decidable (_ ∨ _))

/-- The server after an event. -/
def next : Event → Server
  | .start init => { s.close with isinit := init }
  | .close => s.close
  | .connection status ret closes => s.acceptConnection status ret closes
  | .recv data nread closes => s.afterServerRecv data nread closes
  | .closed data =>
    let t := (s.setHandle data .closed).note (.closed data)
    if s.handle data = .closing true then t.afterClientClose data else t
  | .otherId => { s with id := nextId s.id }

/-- `CTCPServer::CTCPServer` -/
def Init (s : Server) : Prop :=
  s.isinit = false ∧ s.clients = [] ∧ s.created = 0 ∧ (∀ data, s.handle data = .unset) ∧
    s.log = []

def step (s : Server) (e : Event) : Option Server := if s.Pending e then some (s.next e) else none

def Step (s : Server) (e : Event) (t : Server) : Prop := step s e = some t

def StepIf (cond : Server → Event → Prop) (s : Server) (e : Event) (t : Server) : Prop :=
  cond s e ∧ Step s e t

end Server

end LibuvWorks.UVSocket
