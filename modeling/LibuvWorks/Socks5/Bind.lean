import LibuvWorks.Socks5.Client
import Mathlib.Data.List.Range

/-!
# Starting the servers

`do_bind` starts a server for each address of the host. The contexts of the servers are the elements
of one array, and each has its TCP handle behind its first field. What the system answers is given
for the server at each index of the array.
-/

namespace LibuvWorks.Socks5.Server

open List Nat
open Client (SockAddr)

/-- Where the array `state->servers` is, the size of its elements, and the offset of `tcp_handle` in
them -/
structure ServerArray where
  base : ℕ
  size : ℕ
  offset : ℕ
  offset_pos : 0 < offset
  offset_lt : offset < size

namespace ServerArray

variable (a : ServerArray)

/-- `state->servers + n` -/
def server (n : ℕ) : ℕ := a.base + n * a.size

/-- `&state->servers[n].tcp_handle` -/
def tcpHandle (n : ℕ) : ℕ := a.server n + a.offset

theorem server_ne_tcpHandle (m n : ℕ) : a.server m ≠ a.tcpHandle n := by
  intro heq
  have hmod := congrArg (· % a.size) (Nat.add_left_cancel ((Nat.add_assoc ..).symm.trans heq.symm))
  simp only [mul_mod_left, mul_add_mod_self_right, mod_eq_of_lt a.offset_lt] at hmod
  exact Nat.ne_of_gt a.offset_pos hmod

end ServerArray

structure ServerConfig where
  bindHost : String
  bindPort : UInt16
  idleTimeout : UInt32

/-- `server_ctx`, with the address that its TCP handle is bound to, and the backlog if it listens -/
structure ServerCtx where
  idleTimeout : UInt32
  bound : Option SockAddr
  backlog : Option ℕ
  deriving DecidableEq

inductive BindLine where
  | unresolved (host : String) (status : ℤ)
  | noAddresses (host : String)
  | failed (what : String) (addr : SockAddr) (port : UInt16) (err : ℤ)
  | listening (addr : SockAddr) (port : UInt16)

/-- The contexts that were initialised, for how many there is room, the addresses that were passed to
`uv_close`, and what was logged -/
structure Servers where
  servers : List ServerCtx
  allocated : ℕ
  closes : List ℕ
  log : List BindLine

/-- What `uv_tcp_bind` and `uv_listen` return for the server at an index -/
structure BindSystem where
  bind : ℕ → ℤ
  listen : ℕ → ℤ

def isInet4 : SockAddr → Bool
  | .inet .. => true
  | _ => false

def isInet6 : SockAddr → Bool
  | .inet6 .. => true
  | _ => false

section

variable (a : ServerArray) (cf : ServerConfig) (sys : BindSystem)

/-- The servers before `n` are closed. -/
def closeServers : ℕ → Servers → Servers
  | 0, s => s
  | n + 1, s => closeServers n { s with closes := s.closes ++ [a.server n] }

/-- The loop of `do_bind` that starts the servers -/
def bindServers : List SockAddr → ℕ → Servers → Servers
  | [], _, s => s
  | ai :: ais, n, s =>
    if ai.isInet = false then bindServers ais n s
    else
      let addr := ai.setPort cf.bindPort
      let bound := sys.bind n
      let err := if bound = 0 then sys.listen n else bound
      let what := if bound = 0 then "uv_listen" else "uv_tcp_bind"
      let sx : ServerCtx :=
        { idleTimeout := cf.idleTimeout
          bound := if bound = 0 then some addr else none
          backlog := if err = 0 then some 128 else none }
      let s := { s with servers := s.servers ++ [sx] }
      if err ≠ 0 then
        closeServers a n { s with log := s.log ++ [.failed what addr cf.bindPort err] }
      else bindServers ais (n + 1) { s with log := s.log ++ [.listening addr cf.bindPort] }

def doBind (status : ℤ) (addrs : List SockAddr) : Servers :=
  if status < 0 then ⟨[], 0, [], [.unresolved cf.bindHost status]⟩
  else
    let ipv4Naddrs := addrs.countP isInet4
    let ipv6Naddrs := addrs.countP isInet6
    if ipv4Naddrs = 0 ∧ ipv6Naddrs = 0 then ⟨[], 0, [], [.noAddresses cf.bindHost]⟩
    else bindServers a cf sys addrs 0 ⟨[], ipv4Naddrs + ipv6Naddrs, [], []⟩

end

/-- One server listens on each address with the port of the configuration, and none is closed. -/
structure Listens (cf : ServerConfig) (addrs : List SockAddr) (s : Servers) : Prop where
  bound : s.servers.map ServerCtx.bound =
    (addrs.filter SockAddr.isInet).map fun ai => some (ai.setPort cf.bindPort)
  listening : ∀ sx ∈ s.servers, sx.backlog = some 128
  closes : s.closes = []

/-- The TCP handle of each context that was initialised is closed once, and nothing else. -/
def ClosesAll (a : ServerArray) (s : Servers) : Prop :=
  s.closes.Perm ((List.range s.servers.length).map a.tcpHandle)

def Failed (s : Servers) : Prop := ∃ sx ∈ s.servers, sx.backlog = none

structure StartsRight (a : ServerArray) (cf : ServerConfig) (status : ℤ) (addrs : List SockAddr)
    (s : Servers) : Prop where
  success : 0 ≤ status → ¬Failed s → Listens cf addrs s
  failure : Failed s → ClosesAll a s

variable {a : ServerArray} {cf : ServerConfig} {sys : BindSystem} {addrs : List SockAddr}
  {s : Servers} {n : ℕ}

def BindSystem.Starts (sys : BindSystem) (n : ℕ) : Prop := sys.bind n = 0 ∧ sys.listen n = 0

theorem closeServers_closes :
    (closeServers a n s).closes = s.closes ++ (List.range n).reverse.map a.server := by
  induction n generalizing s with
  | zero => exact (append_nil _).symm
  | succ n ih =>
    rw [closeServers, ih, range_succ, reverse_append, map_append,
      append_assoc]
    rfl

theorem closeServers_servers : (closeServers a n s).servers = s.servers := by
  induction n generalizing s with
  | zero => rfl
  | succ n ih => exact ih

def listener (cf : ServerConfig) (ai : SockAddr) : ServerCtx :=
  ⟨cf.idleTimeout, some (ai.setPort cf.bindPort), some 128⟩

/-- Either all servers are started, or those before the one that fails are closed. -/
theorem bindServers_cases (hn : s.servers.length = n) :
    ((∀ k < (addrs.filter SockAddr.isInet).length, sys.Starts (n + k)) ∧
      (bindServers a cf sys addrs n s).servers =
        s.servers ++ (addrs.filter SockAddr.isInet).map (listener cf) ∧
      (bindServers a cf sys addrs n s).closes = s.closes) ∨
    (¬(∀ k < (addrs.filter SockAddr.isInet).length, sys.Starts (n + k)) ∧
      ∃ m, Failed (bindServers a cf sys addrs n s) ∧
        (bindServers a cf sys addrs n s).servers.length = m + 1 ∧
        (bindServers a cf sys addrs n s).closes =
          s.closes ++ (List.range m).reverse.map a.server) := by
  induction addrs generalizing n s with
  | nil => exact .inl ⟨fun _ => nofun, (append_nil _).symm, rfl⟩
  | cons ai ais ih =>
    rw [bindServers]
    cases hinet : ai.isInet with
    | false =>
      rw [filter_cons_of_neg (by simp [hinet])]
      exact ih hn
    | true =>
      rw [if_neg Bool.noConfusion, filter_cons_of_pos hinet]
      by_cases hstarts : sys.Starts n
      · have hall : (∀ k < (ai :: ais.filter SockAddr.isInet).length, sys.Starts (n + k)) ↔
            ∀ k < (ais.filter SockAddr.isInet).length, sys.Starts (n + 1 + k) := by
          rw [length_cons, forall_lt_succ_left]
          simp only [Nat.add_zero, hstarts, true_and, Nat.add_assoc, Nat.add_comm 1]
        have hbind := hstarts.1
        have hlisten := hstarts.2
        let s' : Servers :=
          { s with
            servers := s.servers ++ [listener cf ai]
            log := s.log ++ [.listening (ai.setPort cf.bindPort) cf.bindPort] }
        have hlength : s'.servers.length = n + 1 := by
          rw [length_append, hn]
          rfl
        simp only [hbind, hlisten, if_true, ne_eq, not_true_eq_false, if_false]
        rw [hall]
        rcases ih hlength with ⟨hrest, hservers, hcloses⟩ | hfails
        · refine .inl ⟨hrest, hservers.trans ?_, hcloses⟩
          rw [append_assoc]
          rfl
        · exact .inr hfails
      · have herr : (if sys.bind n = 0 then sys.listen n else sys.bind n) ≠ 0 := by
          split_ifs with hbind
          · exact fun hlisten => hstarts ⟨hbind, hlisten⟩
          · exact hbind
        rw [if_pos herr, if_neg herr]
        refine .inr ⟨fun hall => hstarts (hall 0 (zero_lt_succ _)), n, ?_, ?_, ?_⟩
        · unfold Failed
          rw [closeServers_servers]
          exact ⟨_, mem_append_right _ (mem_singleton_self _), rfl⟩
        · rw [closeServers_servers, length_append, hn]
          rfl
        · exact closeServers_closes

theorem countP_isInet (addrs : List SockAddr) :
    addrs.countP isInet4 + addrs.countP isInet6 = (addrs.filter SockAddr.isInet).length := by
  rw [← countP_eq_length_filter]
  induction addrs with
  | nil => rfl
  | cons ai ais ih =>
    simp only [countP_cons]
    cases ai <;> simp only [isInet4, isInet6, SockAddr.isInet, if_true, Bool.false_eq_true,
      if_false] <;> omega

theorem listens_of_servers
    (hservers : s.servers = (addrs.filter SockAddr.isInet).map (listener cf))
    (hcloses : s.closes = []) : ¬Failed s ∧ Listens cf addrs s := by
  have hbacklog : ∀ sx ∈ s.servers, sx.backlog = some 128 := by
    intro sx hmem
    rw [hservers] at hmem
    obtain ⟨ai, -, rfl⟩ := mem_map.mp hmem
    rfl
  refine ⟨?_, ?_, hbacklog, hcloses⟩
  · rintro ⟨sx, hmem, hnone⟩
    exact nomatch (hbacklog sx hmem).symm.trans hnone
  · rw [hservers, map_map]
    rfl

/-- Where `server_ctx` has a `uv_tcp_t` of 248 bytes behind its first field -/
def exampleArray : ServerArray := ⟨4096, 264, 8, by decide, by decide⟩

def secondInUse : Servers :=
  doBind exampleArray ⟨"localhost", 1080, 60000⟩ ⟨fun n => if n = 1 then -98 else 0, fun _ => 0⟩ 0
    [.inet (fun _ => 0) 0, .inet6 (fun _ => 0) 0 0 0]

end LibuvWorks.Socks5.Server
