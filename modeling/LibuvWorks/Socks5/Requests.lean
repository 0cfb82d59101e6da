import LibuvWorks.Socks5.Phases
import LibuvWorks.Lib.History

/-!
# What a session connects to

Every `uv_tcp_connect` goes to what the client has asked for, unless the client's timer
expires during the lookup of a host; the client is told of success after the connection has
been made, unless its timer expires before.
-/
namespace LibuvWorks.Socks5.Client

open Session (deliver enter_log killed received settled writes)
open Function (update update_apply update_self)
open StateExcept Transition History

/-- `a` is the address that the client has asked for, or the one that its host has been
resolved to, and `can_access` has allowed it. -/
inductive Asked (a : SockAddr) : List Obs → Prop
  | address (p : S5Ctx) (older : List Obs) (hatyp : p.atyp ≠ .host) (ha : a = requestAddr p) :
    Asked a (.access a true :: .request p.atyp p.daddr p.dport :: older)
  | host (p : S5Ctx) (ai : SockAddr) (older : List Obs) (hatyp : p.atyp = .host)
    (ha : a = ai.setPort p.dport) :
    Asked a (.access a true :: .resolved 0 ai :: .lookup p.daddr ::
      .request p.atyp p.daddr p.dport :: older)

/-- A call of `uv_tcp_connect` goes to the address that has been asked for. -/
def ToAsked : Obs → List Obs → Prop
  | .connect a _, older => Asked a older
  | _, _ => True

/-- The client's timer does not expire during a lookup while the bytes of the request read as
an address that may be accessed. -/
def LookedUp (s : Session) (_ : Returns) : Event → Prop
  | .timerExpire c status => c = .incoming → status = 0 → s.state = .reqLookup →
      canAccess (s.conn .outgoing).t.addr = false
  | _ => True

instance (s : Session) (ret : Returns) (e : Event) : Decidable (LookedUp s ret e) :=
  match e with
  | .timerExpire _ _ => inferInstanceAs (Decidable (_ = _ → _ = _ → _ = _ → _ = _))
  | .lookupDone _ _ | .connectDone _ | .readDone _ _ _ _ | .writeDone _ _ | .closeDone _ _ =>
    inferInstanceAs (Decidable True)

variable {ret : Returns} {s t u : Session} {c a b : Side} {e : Event} {st : SessState}

def ConnectsAsked (s : Session) : Prop := Justified ToAsked s.log

@[simp] theorem connectsAsked_note {o : Obs} :
    ConnectsAsked (s.note o) ↔ ToAsked o s.log ∧ ConnectsAsked s := by
  simp [ConnectsAsked]

theorem connectsAsked_congr (h : t.log = s.log) : ConnectsAsked t ↔ ConnectsAsked s := by
  rw [ConnectsAsked, ConnectsAsked, h]

section setters

variable {r : ℤ} {p : S5Ctx} {x : ConnState} {v : Scratch} {q : Option UnionReq} {on : Bool}

@[simp] theorem connectsAsked_setParser : ConnectsAsked (s.setParser p) ↔ ConnectsAsked s := Iff.rfl

@[simp] theorem connectsAsked_setRd : ConnectsAsked (s.setRd c x) ↔ ConnectsAsked s := Iff.rfl

@[simp] theorem connectsAsked_setWr : ConnectsAsked (s.setWr c x) ↔ ConnectsAsked s := Iff.rfl

@[simp] theorem connectsAsked_setResult : ConnectsAsked (s.setResult c r) ↔ ConnectsAsked s :=
  Iff.rfl

@[simp] theorem connectsAsked_setScratch : ConnectsAsked (s.setScratch c v) ↔ ConnectsAsked s :=
  Iff.rfl

@[simp] theorem connectsAsked_setReq : ConnectsAsked (s.setReq c q) ↔ ConnectsAsked s := Iff.rfl

@[simp] theorem connectsAsked_setTimer : ConnectsAsked (s.setTimer c on) ↔ ConnectsAsked s :=
  Iff.rfl

@[simp] theorem connectsAsked_reading : ConnectsAsked (s.reading c) ↔ ConnectsAsked s := Iff.rfl

@[simp] theorem connectsAsked_reads : ConnectsAsked (s.reads c) ↔ ConnectsAsked s := Iff.rfl

@[simp] theorem connectsAsked_closing : ConnectsAsked (s.closing c) ↔ ConnectsAsked s := Iff.rfl

@[simp] theorem connectsAsked_writing {src : Option Side} {data : List UInt8} :
    ConnectsAsked (s.writing c src data) ↔ ConnectsAsked s := by
  have hlog : (s.writing c src data).log = (s.note (.write c data)).log := rfl
  simp [connectsAsked_congr hlog, ToAsked]

@[simp] theorem connectsAsked_writes {src : Option Side} {data : List UInt8} :
    ConnectsAsked (s.writes c src data) ↔ ConnectsAsked s := by
  simp [writes]

end setters

/-! ### A callback that does not return -/

section failures

variable {P : Session → Prop} {p : Prop}

@[simp] theorem assert_failsIn [Decidable p] (hs : P s) : FailsIn P (assert p) s := by
  simp [assert, hs]

@[simp] theorem assertState_failsIn [Decidable p] (hs : P s) : FailsIn P (assertState p) s := by
  simp [assertState, hs]

@[simp] theorem check_failsIn [Decidable p] (hs : P s) : FailsIn P (check p) s := by
  simp [check, hs]

end failures

section

variable (hs : ConnectsAsked s)
include hs

@[simp] theorem connTimerReset_failsIn :
    FailsIn ConnectsAsked (connTimerReset ret c) s := by
  simp [connTimerReset, hs]

@[simp] theorem connRead_failsIn :
    FailsIn ConnectsAsked (connRead ret c) s := by
  simp [connRead, hs, assertState_ok, check_ok]

@[simp] theorem connWrite_failsIn {src : Option Side} {data : List UInt8} : FailsIn ConnectsAsked (connWrite ret c src data) s := by
  simp [connWrite, hs, assertState_ok, check_ok]

@[simp] theorem connGetaddrinfo_failsIn {hostname : ℕ → UInt8} :
    FailsIn ConnectsAsked (connGetaddrinfo ret c hostname) s := by
  simp [connGetaddrinfo, hs, check_ok, ToAsked]

@[simp] theorem doKill_failsIn : FailsIn ConnectsAsked doKill s := by
  simp [doKill, connClose, hs, assertState_ok, ToAsked]

theorem connCycle_failsIn :
    FailsIn ConnectsAsked (connCycle ret a b) s := by
  simp [connCycle, hs]

end

theorem Cycle.connectsAsked (h : Cycle ret a b s t) (hs : ConnectsAsked s) : ConnectsAsked t := by
  cases h <;> simp [hs]

section

variable (hs : ConnectsAsked s)
include hs

@[simp] theorem assertStopped_failsIn :
    FailsIn ConnectsAsked assertStopped s := by
  simp [assertStopped, hs, assertState_ok]

theorem connConnect_failsIn (hasked : Asked (s.conn c).t.addr s.log) :
    FailsIn ConnectsAsked (connConnect ret c) s := by
  simp [connConnect, hs, assert_ok, connTimerReset_ok, ToAsked, hasked]

theorem connConnect_connectsAsked {x : ℤ}
    (hasked : Asked (s.conn c).t.addr s.log) (h : connConnect ret c s = .ok x t) :
    ConnectsAsked t := by
  simp [connConnect, assert_ok, connTimerReset_ok] at h
  obtain ⟨-, -, ⟨-, -, rfl, -⟩ | ⟨-, -, rfl⟩⟩ := h
  · simp [hs, ToAsked, hasked]
  · simp [hs, ToAsked, hasked]

theorem doReqConnectStart_failsIn
    (hasked : canAccess (s.conn .outgoing).t.addr = true → Asked (s.conn .outgoing).t.addr
      (.access (s.conn .outgoing).t.addr true :: s.log)) :
    FailsIn ConnectsAsked (doReqConnectStart ret) s := by
  have hnote : ∀ b, ConnectsAsked (s.note (.access (s.conn .outgoing).t.addr b)) := by
    simp [hs, ToAsked]
  simp [doReqConnectStart, hs, assertStopped_ok, hnote]
  intro _ hyes
  have hasked' : Asked ((s.note (.access (s.conn .outgoing).t.addr
      (canAccess (s.conn .outgoing).t.addr))).conn .outgoing).t.addr
      (s.note (.access (s.conn .outgoing).t.addr (canAccess (s.conn .outgoing).t.addr))).log := by
    simpa [hyes] using hasked hyes
  refine ⟨connConnect_failsIn (hnote _) hasked', fun x t hconn => ?_⟩
  simp [connConnect_connectsAsked (hnote _) hasked' hconn]

theorem doHandshake_failsIn :
    FailsIn ConnectsAsked (doHandshake ret) s := by
  simp [doHandshake, hs, assertState_ok]

theorem doReqStart_failsIn :
    FailsIn ConnectsAsked (doReqStart ret) s := by
  simp [doReqStart, hs, assertState_ok]

theorem doReqParse_failsIn :
    FailsIn ConnectsAsked (doReqParse ret) s := by
  simp [doReqParse, hs, assert_ok, assertState_ok, ToAsked]
  rintro - - - - - - - - - - - hatyp
  refine doReqConnectStart_failsIn (by simp [hs, ToAsked]) fun _ => ?_
  simpa using Asked.address s.parsed.2.2 s.log hatyp rfl

end

/-- What `do_req_lookup` relies on: that a lookup has been made, or that the bytes of its request
do not read as an address. -/
def LookupDone (s : Session) : Prop :=
  0 ≤ (s.conn .outgoing).result → canAccess (s.conn .outgoing).t.addr = true →
    Asked ((s.conn .outgoing).t.addr.setPort s.parser.dport)
      (.access ((s.conn .outgoing).t.addr.setPort s.parser.dport) true :: s.log)

section

variable (hs : ConnectsAsked s)
include hs

theorem doReqLookup_failsIn (hdone : LookupDone s) :
    FailsIn ConnectsAsked (doReqLookup ret) s := by
  simp [doReqLookup, hs, assertStopped_ok]
  intro _ hres _
  apply doReqConnectStart_failsIn (by simp [hs])
  intro hyes
  simp only [Session.setScratch_conn, update_self, canAccess_setPort] at hyes
  simpa using hdone hres hyes

theorem doReqConnect_failsIn :
    FailsIn ConnectsAsked (doReqConnect ret) s := by
  simp [doReqConnect, hs, assertStopped_ok, check_ok]
  intro _ _ _
  cases successReply ret.sockname with
  | none | some reply => simp [hs]

theorem doProxyStart_failsIn :
    FailsIn ConnectsAsked (doProxyStart ret) s := by
  simp [doProxyStart, hs, assertState_ok, connRead_ok]
  rintro - - - - - u - - - rfl
  simp [hs]

theorem doProxy_failsIn : FailsIn ConnectsAsked (doProxy ret) s := by
  have hcycle : ∀ {a b : Side} {s t : Session} {x : Bool}, a ≠ b → ConnectsAsked s →
      connCycle ret a b s = .ok x t → ConnectsAsked t := by
    intro a b s t x hab hs h
    obtain ⟨-, rfl, -⟩ | ⟨-, -, -, h⟩ := connCycle_ok hab h
    · exact hs
    · exact h.connectsAsked hs
  simp [doProxy, hs, connCycle_failsIn]
  refine ⟨fun t ht => ?_, fun t ht => doKill_failsIn (hcycle (by decide) hs ht)⟩
  have hin := hcycle (by decide) hs ht
  exact ⟨connCycle_failsIn hin, fun u hu => doKill_failsIn (hcycle (by decide) hin hu)⟩

theorem doNext_failsIn (hdone : s.state = .reqLookup → LookupDone s) :
    FailsIn ConnectsAsked (doNext ret) s := by
  simp [doNext, hs, assert_ok]
  intro _
  cases hstate : s.state <;> rw [doState]
  case handshake => exact doHandshake_failsIn hs
  case handshakeAuth => simp [doHandshakeAuth, hs]
  case reqStart => exact doReqStart_failsIn hs
  case reqParse => exact doReqParse_failsIn hs
  case reqLookup => exact doReqLookup_failsIn hs (hdone hstate)
  case reqConnect => exact doReqConnect_failsIn hs
  case proxyStart => exact doProxyStart_failsIn hs
  case proxy => exact doProxy_failsIn hs
  case kill => exact doKill_failsIn hs
  case dead => simp [hs]
  all_goals simp [doAlmostDead, hs]

end

@[simp] theorem connectsAsked_deliver : ConnectsAsked (s.deliver e) ↔ ConnectsAsked s :=
  connectsAsked_congr (by simp)

theorem onEvent_failsIn (hs : ConnectsAsked s)
    (hdone : s.Accepts e → s.state = .reqLookup → LookupDone (s.received ret e)) :
    FailsIn ConnectsAsked (onEvent ret e) s := by
  have hnext : s.Accepts e → ConnectsAsked (s.received ret e) →
      FailsIn ConnectsAsked (doNext ret) (s.received ret e) := fun hacc hr =>
    doNext_failsIn hr (by simpa using hdone hacc)
  simp [onEvent, hs]
  intro _
  cases e with
  | timerExpire c status =>
    simp [connTimerExpire, hs, check_ok]
    intro hzero
    simpa [received, hs] using hnext hzero
  | lookupDone status ai =>
    simp [connGetaddrinfoDone, hs, ToAsked]
    refine ⟨fun hzero hinet => ?_, fun hzero => ?_⟩
    · simpa [received, hs, ToAsked, hzero] using hnext fun _ => hinet
    · simpa [received_lookupDone hzero, hs, ToAsked] using hnext fun h => absurd h hzero
  | connectDone status =>
    simp [connConnectDone]
    intro _
    simpa [received, hs, ToAsked] using hnext trivial
  | readDone c own nread data =>
    simp [connReadDone, hs, assert_ok, assertState_ok]
    intro hown hbusy
    simpa [received, hs, ToAsked] using
      hnext ⟨hown, by simpa [deliver] using hbusy⟩
  | writeDone c status =>
    simp [connWriteDone, hs, assertState_ok]
    intro _ hbusy
    have hacc : s.Accepts (.writeDone c status) := by
      simpa [deliver, Session.Accepts] using hbusy
    simpa [received, hs] using hnext hacc
  | closeDone c p =>
    simp [connCloseDone]
    simpa [received, hs, ToAsked] using hnext trivial

/-! ### A callback that returns -/

theorem ConnectStart.connectsAsked (h : ConnectStart ret s st t) (hs : ConnectsAsked s)
    (hasked : canAccess (s.conn .outgoing).t.addr = true → Asked (s.conn .outgoing).t.addr
      (.access (s.conn .outgoing).t.addr true :: s.log)) : ConnectsAsked t := by
  cases h with
  | denied => simp [hs, ToAsked]
  | connecting hyes => simp [Session.connecting, hs, ToAsked, hasked hyes]
  | failed hyes => simp [killed, hs, ToAsked, hasked hyes]

theorem Turn.connectsAsked (h : Turn ret s st u) (hs : ConnectsAsked s)
    (hdone : s.state = .reqLookup → LookupDone s) : ConnectsAsked u := by
  cases h with
  | address p st t hstate hgot hatyp hstart =>
    refine hstart.connectsAsked (by simp [settled, hs, ToAsked]) fun _ => ?_
    simpa using Asked.address p s.log hatyp rfl
  | resolved st t hstate hstop hres hstart =>
    apply hstart.connectsAsked (by simp [hs])
    intro hyes
    simp only [Session.setScratch_conn, update_self, canAccess_setPort] at hyes
    simpa using hdone hstate hres hyes
  | cycle _ _ _ _ hin hout => exact hout.connectsAsked (hin.connectsAsked hs)
  | _ => simp [settled, killed, Session.looking, hs, ToAsked]

def Looking (s : Session) : Prop :=
  s.state = .reqLookup → s.parser.atyp = .host ∧ ∃ older, s.log =
    .lookup s.parser.daddr :: .request s.parser.atyp s.parser.daddr s.parser.dport :: older

theorem ConnectStart.ne_lookup (h : ConnectStart ret s st t) : st ≠ .reqLookup := by
  cases h with
  | failed => exact killState_ne rfl
  | _ => simp

theorem Turn.looking (h : Turn ret s st u) : Looking (u.enter st) := by
  intro hst
  rw [Session.enter_state] at hst
  cases h with
  | lookup p hstate hgot hatyp =>
    refine ⟨by simpa using hatyp, s.log, ?_⟩
    simp [enter_log]
  | kill => exact absurd hst (killState_ne rfl)
  | address _ _ _ _ _ _ hstart | resolved _ _ _ _ _ hstart => exact absurd hst hstart.ne_lookup
  | finalizer hdead => simpa [hst, SessState.isAlmostDead] using succ_isAlmostDead hdead
  | _ => cases hst

theorem Looking.of_reachable (h : Reachable Init Step s) : Looking s := by
  apply h.invariant
  · rintro s ⟨ret, t, h⟩
    obtain ⟨-, -, -, rfl⟩ := connRead_ok.mp h
    simp [Looking, fresh]
  · rintro s ⟨ret, e⟩ t hreach h hstep hst
    obtain ⟨hp, hev⟩ := step_eq_some.mp hstep
    obtain ⟨-, ⟨hignored, rfl⟩ | ⟨-, -, st, u, hturn, rfl⟩⟩ := onEvent_ok hev
    · have hphase := (Inv.of_reachable hreach).phase
      rw [skipped_state] at hst
      rw [Phase, hst] at hphase
      obtain ⟨hin, hout, hreq, -⟩ := hphase
      cases e with
      | connectDone status => simp [Session.Pending, hreq] at hp
      | writeDone c status => cases c <;> simp [Session.Pending, hin.writes, hout.writes] at hp
      | _ => simp [Event.ignored] at hignored
    · exact hturn.looking hst

theorem Looking.done (h : Looking s) (hinv : Inv s) (hp : s.Pending e) (hacc : s.Accepts e)
    (hlooked : LookedUp s ret e) (hstate : s.state = .reqLookup) :
    LookupDone (s.received ret e) := by
  obtain ⟨hatyp, older, hlog⟩ := h hstate
  have hclose := hinv.notClosing hp (by rw [hstate]; rfl)
  have hphase := hinv.phase
  rw [Phase, hstate] at hphase
  obtain ⟨hin, hout, hreq, -⟩ := hphase
  intro hres hyes
  cases e with
  | timerExpire c status =>
    cases c
    · have hno := hlooked rfl hacc hstate
      simp [received, deliver, hno] at hyes
    · simp [received, etimedout] at hres
  | lookupDone status ai =>
    have hzero : status = 0 := by
      have hle := hp.2
      simp [received] at hres
      omega
    simpa [received, deliver, hzero, hlog] using
      Asked.host s.parser ai older hatyp rfl
  | connectDone status => simp [Session.Pending, hreq] at hp
  | readDone c own nread data => cases c <;> simp [Session.Pending, hin.reads, hout.reads] at hp
  | writeDone c status => cases c <;> simp [Session.Pending, hin.writes, hout.writes] at hp
  | closeDone c p => exact absurd rfl (hclose c p)

theorem connectsAsked_received : ConnectsAsked (s.received ret e) ↔ ConnectsAsked s := by
  cases e <;> simp [received, ToAsked]

theorem connectsAsked_enter : ConnectsAsked (s.enter st) ↔ ConnectsAsked s := by
  rw [ConnectsAsked, enter_log]
  split <;> simp [ConnectsAsked, ToAsked]

theorem connectsAsked_skipped : ConnectsAsked (s.skipped e) ↔ ConnectsAsked s := by
  cases e <;> simp [Session.skipped, ToAsked]

theorem ConnectsAsked.onEvent (hs : ConnectsAsked s)
    (hreach : Reachable Init Step s) (hp : s.Pending e) (hlooked : LookedUp s ret e) :
    (∀ t, Client.onEvent ret e s = .ok () t → ConnectsAsked t) ∧
      FailsIn ConnectsAsked (Client.onEvent ret e) s := by
  have hinv := Inv.of_reachable hreach
  have hdone : s.Accepts e → s.state = .reqLookup → LookupDone (s.received ret e) :=
    fun hacc => (Looking.of_reachable hreach).done hinv hp hacc hlooked
  refine ⟨fun t h => ?_, onEvent_failsIn hs hdone⟩
  obtain ⟨-, ⟨-, rfl⟩ | ⟨-, hacc, st, u, hturn, rfl⟩⟩ := onEvent_ok h
  · exact connectsAsked_skipped.mpr hs
  · exact connectsAsked_enter.mpr
      (hturn.connectsAsked (connectsAsked_received.mpr hs) (by simpa using hdone hacc))

theorem ConnectsAsked.of_reachable (h : Reachable Init (StepIf LookedUp) s) :
    ConnectsAsked s := by
  apply h.invariant
  · rintro s ⟨ret, t, h⟩
    obtain ⟨-, -, -, rfl⟩ := connRead_ok.mp h
    simp [ConnectsAsked, fresh]
  · rintro s ⟨ret, e⟩ t hreach hs ⟨hlooked, hstep⟩
    obtain ⟨hp, hev⟩ := step_eq_some.mp hstep
    exact (hs.onEvent (hreach.mono fun _ _ _ hst => hst.2) hp hlooked).1 t hev

/-- In every run whose steps meet `LookedUp`, and whether or not the last callback returns: each
`uv_tcp_connect` goes to what the client has asked for, and `can_access` has allowed it. -/
theorem connects_to_asked (h : Reachable Init (StepIf LookedUp) s)
    (hu : u = s ∨ ∃ ret e a, s.Pending e ∧ LookedUp s ret e ∧ onEvent ret e s = .error a u)
    (newer older : List Obs) (a : SockAddr) (err : ℤ)
      (hlog : u.log = newer ++ .connect a err :: older) : Asked a older := by
  have hs := ConnectsAsked.of_reachable h
  have hconnects : ConnectsAsked u := by
    obtain rfl | ⟨ret, e, a, hp, hlooked, hev⟩ := hu
    · exact hs
    · exact (hs.onEvent (h.mono fun _ _ _ hst => hst.2) hp hlooked).2 a u hev
  exact hconnects newer (.connect a err) older hlog

theorem connects_to_asked_address :
    ∃ (s : Session) (a : SockAddr) (older : List Obs), s.log = .connect a 0 :: older ∧
      Asked a older := by
  have hsome : ((greeting ++ [askAddress]).foldlM
      (fun s e => if LookedUp s e.1 e.2 then step s e else none) start).isSome = true := by rfl
  exact ⟨Option.get _ hsome, _, _, by rfl, connects_to_asked
    (reachable_of_runIf (Option.some_get hsome).symm) (.inl rfl) [] _ _ _ (by rfl)⟩

/-- The bytes of the lookup's request read as the address of an earlier session. -/
def staleAddress : Returns := { Returns.ok with stale := .inet (fun _ => 9) 99, connect := -101 }

theorem Asked.second {x : SockAddr} {older : List Obs} (h : Asked x older) :
    older[1]?.any (fun o => o matches .lookup _) = false := by
  cases h <;> rfl

/-- The client's timer expires during the lookup, and the session connects to that address. -/
theorem staleAddress_connects :
    ∃ s newer older a err, Reachable Init Step s ∧
      s.log = newer ++ .connect a err :: older ∧ ¬ Asked a older := by
  have hsome : ((greeting ++ [(staleAddress, askHost.2),
      (staleAddress, .timerExpire .incoming 0)]).foldlM step start).isSome = true := by rfl
  refine ⟨_, [.kill], _, .inet (fun _ => 9) 80, -101, reachable_of_run (Option.some_get hsome).symm,
    by rfl, fun h => ?_⟩
  have hsecond := h.second
  revert hsecond
  exact Bool.noConfusion

end LibuvWorks.Socks5.Client
