import LibuvWorks.Socks5.Phases

/-!
# The assertions of a session

Which completions, in which states, run into an `ASSERT` on a half-operation or into
`UNREACHABLE`.
-/
namespace LibuvWorks.Socks5.Client

open Session (deliver received)
open Function (update update_apply)
open StateExcept Transition

/-- An `ASSERT` on `rdstate` or `wrstate`, or `UNREACHABLE`. -/
def Abort.Fatal (a : Abort) : Prop := a = .assertState ∨ a = .unreachable

variable {ret : Returns} {s t u : Session} {c a b : Side} {e : Event} {st : SessState} {p : Prop}

def Open (s : Session) : Prop := ∀ c, (s.conn c).rdstate ≠ .dead ∧ (s.conn c).wrstate ≠ .dead

@[simp] theorem fatal_assertState : Abort.assertState.Fatal := .inl rfl

@[simp] theorem fatal_unreachable : Abort.unreachable.Fatal := .inr rfl

@[simp] theorem not_fatal_assert : ¬ Abort.assert.Fatal := by simp [Abort.Fatal]

@[simp] theorem not_fatal_check : ¬ Abort.check.Fatal := by simp [Abort.Fatal]

@[simp] theorem not_fatal_undefined : ¬ Abort.undefined.Fatal := by simp [Abort.Fatal]

/-! ### The operations on a connection -/

@[simp] theorem assert_fails [Decidable p] : ¬ FailsWith Abort.Fatal (assert p) s := by
  simp [assert]

@[simp] theorem assertState_fails [Decidable p] : FailsWith Abort.Fatal (assertState p) s ↔ ¬p := by
  simp [assertState]

@[simp] theorem check_fails [Decidable p] : ¬ FailsWith Abort.Fatal (check p) s := by
  simp [check]

@[simp] theorem connTimerReset_fails : ¬ FailsWith Abort.Fatal (connTimerReset ret c) s := by
  simp [connTimerReset]

@[simp] theorem connRead_fails :
    FailsWith Abort.Fatal (connRead ret c) s ↔ (s.conn c).rdstate ≠ .stop := by
  simp [connRead]

@[simp] theorem connWrite_fails {src : Option Side} {data : List UInt8} :
    FailsWith Abort.Fatal (connWrite ret c src data) s ↔
      ¬((s.conn c).wrstate = .stop ∨ (s.conn c).wrstate = .done) := by
  simp [connWrite]

@[simp] theorem connGetaddrinfo_fails {hostname : ℕ → UInt8} :
    ¬ FailsWith Abort.Fatal (connGetaddrinfo ret c hostname) s := by
  simp [connGetaddrinfo]

@[simp] theorem connConnect_fails : ¬ FailsWith Abort.Fatal (connConnect ret c) s := by
  simp [connConnect]

@[simp] theorem assertStopped_fails :
    FailsWith Abort.Fatal assertStopped s ↔ ¬ Stopped s := by
  simp [assertStopped, assertState_ok, Stopped, Side.forall]
  tauto

theorem doKill_fails (h : Open s) : ¬ FailsWith Abort.Fatal doKill s := by
  have hin := h .incoming
  have hout := h .outgoing
  simp [doKill, connClose, assertState_ok, hin, hout]

/-! ### The functions of the session states -/

theorem Open.setRd {st : ConnState} (h : Open s) (hst : st ≠ .dead) : Open (s.setRd c st) := by
  intro d
  have hd := h d
  simp [update_apply]
  split <;> simp_all

theorem Open.setWr {st : ConnState} (h : Open s) (hst : st ≠ .dead) : Open (s.setWr c st) := by
  intro d
  have hd := h d
  simp [update_apply]
  split <;> simp_all

theorem Open.setParser {p : S5Ctx} (h : Open s) : Open (s.setParser p) := h

theorem Stopped.isOpen (h : Stopped s) : Open s := fun c => by simp [h c]

theorem Stopped.connConnect {x : ℤ} (h : Stopped s) (hconn : connConnect ret c s = .ok x t) :
    Stopped t := by
  simp [Client.connConnect, assert_ok, connTimerReset_ok] at hconn
  obtain ⟨-, -, ⟨-, -, rfl, -⟩ | ⟨-, -, rfl⟩⟩ := hconn
  all_goals
    intro d
    have hd := h d
    simp [update_apply]
    split <;> simp_all

theorem doReqConnectStart_fails (h : Stopped s) :
    ¬ FailsWith Abort.Fatal (doReqConnectStart ret) s := by
  simp [doReqConnectStart, assertStopped_ok, h, h .incoming]
  intro _ _ x t hconn _
  have hnote : Stopped (s.note (.access (s.conn .outgoing).t.addr
    (canAccess (s.conn .outgoing).t.addr))) := h
  exact doKill_fails (hnote.connConnect hconn).isOpen

theorem doHandshake_fails (h : Open s) :
    FailsWith Abort.Fatal (doHandshake ret) s ↔ ¬ GotData s := by
  have hread : Open (s.setRd .incoming .stop) := h.setRd (by simp)
  have hgot : GotData s ↔
      (s.conn .incoming).rdstate = .done ∧ (s.conn .incoming).wrstate = .stop :=
    ⟨fun h => ⟨h.rd, h.wr⟩, fun h => ⟨h.1, h.2⟩⟩
  simp [doHandshake, assertState_ok, doKill_fails hread, doKill_fails hread.setParser, hgot]
  tauto

theorem doReqStart_fails (h : Open s) : FailsWith Abort.Fatal (doReqStart ret) s ↔ ¬ Wrote s := by
  have hwritten : Open (s.setWr .incoming .stop) := h.setWr (by simp)
  have hwrote : Wrote s ↔
      (s.conn .incoming).rdstate = .stop ∧ (s.conn .incoming).wrstate = .done :=
    ⟨fun h => ⟨h.rd, h.wr⟩, fun h => ⟨h.1, h.2⟩⟩
  simp [doReqStart, assertState_ok, doKill_fails hwritten, hwrote]
  tauto

def Unused (s : Session) : Prop :=
  (s.conn .outgoing).rdstate = .stop ∧ (s.conn .outgoing).wrstate = .stop

theorem doReqParse_fails (h : Open s) (hout : Unused s) :
    FailsWith Abort.Fatal (doReqParse ret) s ↔ ¬ GotData s := by
  have hread : Open (s.setRd .incoming .stop) := h.setRd (by simp)
  have hgot : GotData s ↔
      (s.conn .incoming).rdstate = .done ∧ (s.conn .incoming).wrstate = .stop :=
    ⟨fun h => ⟨h.rd, h.wr⟩, fun h => ⟨h.1, h.2⟩⟩
  have hstart : ∀ p : S5Ctx, GotData s → ¬ FailsWith Abort.Fatal (doReqConnectStart ret)
      ((((s.setRd .incoming .stop).setParser p).note (.request p.atyp p.daddr p.dport)).setScratch
        .outgoing ⟨[], requestAddr p⟩) := by
    intro p hgot
    refine doReqConnectStart_fails (Side.forall.mpr ⟨?_, ?_⟩)
    · simp [hgot.wr]
    · simpa [Unused] using hout
  simp [doReqParse, assert_ok, assertState_ok, doKill_fails hread, doKill_fails hread.setParser,
    hgot, hout.1, hout.2]
  tauto

theorem doReqLookup_fails :
    FailsWith Abort.Fatal (doReqLookup ret) s ↔ ¬ Stopped s ∨
      0 ≤ (s.conn .outgoing).result ∧ (s.conn .outgoing).t.addr.isInet = false := by
  by_cases h : Stopped s
  · have hstart : ¬ FailsWith Abort.Fatal (doReqConnectStart ret) (s.setScratch .outgoing
        ⟨[], (s.conn .outgoing).t.addr.setPort s.parser.dport⟩) := by
      refine doReqConnectStart_fails (Side.forall.mpr ⟨?_, ?_⟩)
      · simpa using h .incoming
      · simpa using h .outgoing
    have hall : ∀ c, (s.conn c).rdstate = .stop ∧ (s.conn c).wrstate = .stop := h
    simp [doReqLookup, assertStopped_ok, h, hall, hstart]
  · simp [doReqLookup, h]

theorem doReqConnect_fails :
    FailsWith Abort.Fatal (doReqConnect ret) s ↔ ¬ Stopped s ∨
      (s.conn .outgoing).result = 0 ∧ ret.getsockname = 0 ∧ successReply ret.sockname = none := by
  by_cases h : Stopped s
  · have hall : ∀ c, (s.conn c).rdstate = .stop ∧ (s.conn c).wrstate = .stop := h
    cases hreply : successReply ret.sockname with
    | none | some reply => simp [doReqConnect, assertStopped_ok, check_ok, h, hall, hreply]
  · simp [doReqConnect, h]

theorem doProxyStart_fails (h : Open s) (hout : Unused s) :
    FailsWith Abort.Fatal (doProxyStart ret) s ↔ ¬ Wrote s := by
  have hwritten : Open (s.setWr .incoming .stop) := h.setWr (by simp)
  have hwrote : Wrote s ↔
      (s.conn .incoming).rdstate = .stop ∧ (s.conn .incoming).wrstate = .done :=
    ⟨fun h => ⟨h.rd, h.wr⟩, fun h => ⟨h.1, h.2⟩⟩
  simp [doProxyStart, assertState_ok, connRead_ok, doKill_fails hwritten, hwrote, hout.1, hout.2]
  tauto

theorem connCycle_fails (hab : a ≠ b) : ¬ FailsWith Abort.Fatal (connCycle ret a b) s := by
  simp [connCycle, hab.symm]
  tauto

theorem Open.connCycle {x : Bool} (h : Open s) (hab : a ≠ b)
    (hcycle : connCycle ret a b s = .ok x t) : Open t := by
  obtain ⟨-, rfl, -⟩ | ⟨-, -, -, hcycle⟩ := connCycle_ok hab hcycle
  · exact h
  · intro c
    have hc := h c
    cases hcycle <;> simp [update_apply] <;> grind

theorem doProxy_fails (h : Open s) : ¬ FailsWith Abort.Fatal (doProxy ret) s := by
  have hin : ∀ {x t}, connCycle ret .incoming .outgoing s = .ok x t → Open t :=
    h.connCycle (by decide)
  simp [doProxy, connCycle_fails]
  exact ⟨fun t ht u hu => doKill_fails ((hin ht).connCycle (by decide) hu),
    fun t ht => doKill_fails (hin ht)⟩

theorem doAlmostDead_fails : ¬ FailsWith Abort.Fatal doAlmostDead s := by
  simp [doAlmostDead]

theorem doNext_fails (h : s.state ≠ .dead) :
    FailsWith Abort.Fatal (doNext ret) s ↔ FailsWith Abort.Fatal (doState ret s.state) s := by
  simp [doNext, assert_ok, h]

/-! ### The completions -/

/-- `uv_tcp_getsockname` gives an address that `do_req_connect` knows. -/
def Returns.Named (ret : Returns) : Prop := ret.getsockname = 0 → successReply ret.sockname ≠ none

/-- A completion does not run into an assertion: no timer expires where a half-operation must
have finished, and none moves the session on with bytes that are not yet an address. -/
def Safe (s : Session) (ret : Returns) : Event → Prop
  | .timerExpire c status => status = 0 →
    match s.state with
    | .handshake | .reqStart | .reqParse | .proxyStart => False
    | .reqLookup => c = .incoming → (s.conn .outgoing).t.addr.isInet = true
    | .reqConnect => c = .incoming → ret.Named
    | _ => True
  | .lookupDone status ai => status = 0 → ai.isInet = true
  | .connectDone status => status ≠ ecanceled →
    match s.state with
    | .reqConnect => status = 0 → ret.Named
    | .proxyStart => False
    | _ => True
  | .readDone _ _ _ _ => True
  | .writeDone _ status => s.state.isAlmostDead = true → status = ecanceled
  | .closeDone _ _ => True

theorem onEvent_fails (hfreed : s.freed = false) (hignored : e.ignored = false)
    (hacc : s.Accepts e) :
    FailsWith Abort.Fatal (onEvent ret e) s ↔
      FailsWith Abort.Fatal (doNext ret) (s.received ret e) := by
  cases e with
  | timerExpire c status =>
    simp [Session.Accepts] at hacc
    simp [onEvent, connTimerExpire, check_ok, hfreed, hacc, received]
  | lookupDone status ai =>
    by_cases hzero : status = 0
    · simp [onEvent, connGetaddrinfoDone, hfreed, hzero, hacc hzero, received]
    · simp [onEvent, connGetaddrinfoDone, hfreed, hzero, received_lookupDone hzero]
  | connectDone status =>
    simp [Event.ignored] at hignored
    simp [onEvent, connConnectDone, hfreed, hignored, received]
  | readDone c own nread data =>
    obtain ⟨rfl, hrd⟩ := hacc
    have hbusy : ((s.deliver (.readDone c true nread data)).conn c).rdstate = .busy := by
      simpa [deliver] using hrd
    simp [onEvent, connReadDone, assert_ok, assertState_ok, hfreed, hbusy, received]
  | writeDone c status =>
    simp [Event.ignored] at hignored
    have hbusy : ((s.deliver (.writeDone c status)).conn c).wrstate = .busy := by
      simpa [deliver, Session.Accepts] using hacc
    simp [onEvent, connWriteDone, assertState_ok, hfreed, hignored, hbusy, received]
  | closeDone c h => simp [onEvent, connCloseDone, hfreed, received]

theorem onEvent_fails_of_not_accepts (hfreed : s.freed = false) (hignored : e.ignored = false)
    (hacc : ¬ s.Accepts e) :
    FailsWith Abort.Fatal (onEvent ret e) s ↔
      match e with
      | .lookupDone _ _ | .writeDone _ _ => True
      | .readDone _ own _ _ => own = true
      | _ => False := by
  cases e with
  | timerExpire c status =>
    simp [Session.Accepts] at hacc
    simp [onEvent, connTimerExpire, check_ok, hacc]
  | lookupDone status ai =>
    simp [Session.Accepts] at hacc
    simp [onEvent, connGetaddrinfoDone, hfreed, hacc]
  | connectDone status => exact absurd trivial hacc
  | readDone c own nread data =>
    simp [Session.Accepts] at hacc
    cases own
    · simp [onEvent, connReadDone, assert_ok]
    · simp [onEvent, connReadDone, assert_ok, assertState_ok, hfreed, deliver, hacc]
  | writeDone c status =>
    simp [Event.ignored] at hignored
    simp [Session.Accepts] at hacc
    simp [onEvent, connWriteDone, assertState_ok, hfreed, hignored, deliver, hacc]
  | closeDone c h => exact absurd trivial hacc

theorem Open.received (h : Open s) : Open (s.received ret e) := by
  intro c
  have hc := h c
  cases e <;> simp [received, deliver, update_apply] <;> grind

theorem gotData_received_iff (hin : Reading (s.conn .incoming)) :
    GotData (s.received ret e) ↔ ∃ own nread data, e = .readDone .incoming own nread data := by
  refine ⟨fun h => ?_, ?_⟩
  · have hne : ((s.received ret e).conn .incoming).rdstate ≠ (s.conn .incoming).rdstate := by
      simp [h.rd, hin.rd]
    exact received_rd hne
  · rintro ⟨own, nread, data, rfl⟩
    exact ⟨by simp [received], by simp [received, deliver, hin.wr]⟩

theorem wrote_received_iff (hin : Writing (s.conn .incoming)) :
    Wrote (s.received ret e) ↔ ∃ status, e = .writeDone .incoming status := by
  refine ⟨fun h => ?_, ?_⟩
  · have hne : ((s.received ret e).conn .incoming).wrstate ≠ (s.conn .incoming).wrstate := by
      simp [h.wr, hin.wr]
    exact received_wr hne
  · rintro ⟨status, rfl⟩
    exact ⟨by simp [received, deliver, hin.rd], by simp [received]⟩

theorem Reading.isOpen (hin : Reading (s.conn .incoming)) (hout : Idle (s.conn .outgoing)) :
    Open s :=
  Side.forall.mpr ⟨by simp [hin.rd, hin.wr], by simp [hout.rd, hout.wr]⟩

theorem Writing.isOpen (hin : Writing (s.conn .incoming)) (hout : Idle (s.conn .outgoing)) :
    Open s :=
  Side.forall.mpr ⟨by simp [hin.rd, hin.wr], by simp [hout.rd, hout.wr]⟩

theorem Piping.isOpen (hin : Piping (s.conn .incoming) (s.conn .outgoing))
    (hout : Piping (s.conn .outgoing) (s.conn .incoming)) : Open s := by
  refine Side.forall.mpr ⟨?_, ?_⟩
  · cases hin <;> cases hout <;> simp_all
  · cases hin <;> cases hout <;> simp_all

theorem unused_received (hout : Idle (s.conn .outgoing)) (hp : s.Pending e) :
    Unused (s.received ret e) := by
  have hrd := hout.rd
  have hwr := hout.wr
  constructor
  · by_contra hne
    obtain ⟨own, nread, data, rfl⟩ := received_rd (hrd ▸ hne)
    simp [Session.Pending, hout.reads] at hp
  · by_contra hne
    obtain ⟨status, rfl⟩ := received_wr (hwr ▸ hne)
    simp [Session.Pending, hout.writes] at hp

theorem Reading.safe_iff (hin : Reading (s.conn .incoming)) (hout : Idle (s.conn .outgoing))
    (hreq : (s.conn .outgoing).req = none) (hp : s.Pending e) (hacc : s.Accepts e)
    (hclose : ∀ c p, e ≠ .closeDone c p)
    (htimer : ∀ c, ¬ Safe s ret (.timerExpire c 0)) :
    (∃ own nread data, e = .readDone .incoming own nread data) ↔ Safe s ret e := by
  cases e with
  | timerExpire c status =>
    obtain rfl : status = 0 := hacc
    simp [htimer]
  | lookupDone status ai | connectDone status => simp [Session.Pending, hreq] at hp
  | readDone c own nread data =>
    cases c
    · simp [Safe]
    · simp [Session.Pending, hout.reads] at hp
  | writeDone c status =>
    cases c
    · simp [Session.Pending, hin.writes] at hp
    · simp [Session.Pending, hout.writes] at hp
  | closeDone c h => exact absurd rfl (hclose c h)

/-- While the client is written to, only the end of the write can move the session on. -/
theorem Writing.safe_iff (hin : Writing (s.conn .incoming)) (hout : Idle (s.conn .outgoing))
    (hlookup : (s.conn .outgoing).req ≠ some .addrinfo) (hlive : s.state.isAlmostDead = false)
    (hp : s.Pending e) (hacc : s.Accepts e) (hclose : ∀ c p, e ≠ .closeDone c p)
    (htimer : ∀ c, ¬ Safe s ret (.timerExpire c 0))
    (hconnect : ∀ status, e = .connectDone status → ¬ Safe s ret e) :
    (∃ status, e = .writeDone .incoming status) ↔ Safe s ret e := by
  cases e with
  | timerExpire c status =>
    obtain rfl : status = 0 := hacc
    simp [htimer]
  | lookupDone status ai => simp [Session.Pending, hlookup] at hp
  | connectDone status => simp [hconnect]
  | readDone c own nread data =>
    cases c
    · simp [Session.Pending, hin.reads] at hp
    · simp [Session.Pending, hout.reads] at hp
  | writeDone c status =>
    cases c
    · simp [Safe, hlive]
    · simp [Session.Pending, hout.writes] at hp
  | closeDone c h => exact absurd rfl (hclose c h)

theorem Inv.doNext_fails (hinv : Inv s) (hp : s.Pending e) (hfreed : s.freed = false)
    (hignored : e.ignored = false) (hacc : s.Accepts e) :
    FailsWith Abort.Fatal (doNext ret) (s.received ret e) ↔ ¬ Safe s ret e := by
  have hphase := hinv.phase
  have hne : s.state ≠ .dead := fun h => by simp [hinv.freed.mpr h] at hfreed
  rw [Client.doNext_fails (by simpa using hne), Session.received_state]
  rw [Phase] at hphase
  have hclose : s.state.isAlmostDead = false → ∀ c p, e ≠ .closeDone c p :=
    hinv.notClosing hp
  cases hs : s.state <;> rw [hs] at hphase hclose
  case handshake =>
    obtain ⟨hin, hout, hreq, -⟩ := hphase
    rw [doState, doHandshake_fails (hin.isOpen hout).received, gotData_received_iff hin,
      hin.safe_iff hout hreq hp hacc (hclose rfl) (by simp [Safe, hs])]
  case handshakeAuth => exact hphase.elim
  case reqStart =>
    obtain ⟨hin, hout, hreq, -⟩ := hphase
    rw [doState, doReqStart_fails (hin.isOpen hout).received, wrote_received_iff hin,
      hin.safe_iff hout (by simp [hreq]) (by simp [hs, SessState.isAlmostDead]) hp hacc (hclose rfl)
        (by simp [Safe, hs])]
    rintro status rfl
    simp [Session.Pending, hreq] at hp
  case reqParse =>
    obtain ⟨hin, hout, hreq, -⟩ := hphase
    rw [doState, doReqParse_fails (hin.isOpen hout).received (unused_received hout hp),
      gotData_received_iff hin, hin.safe_iff hout hreq hp hacc (hclose rfl) (by simp [Safe, hs])]
  case reqLookup =>
    obtain ⟨hin, hout, hreq, hres⟩ := hphase
    have hquiet := quiet_received ret (Side.forall.mpr ⟨hin, hout⟩) hp
    have hstop : Stopped (s.received ret e) := fun c => ⟨(hquiet c).rd, (hquiet c).wr⟩
    rw [doState, doReqLookup_fails, or_iff_right (not_not_intro hstop)]
    cases e with
    | timerExpire c status =>
      obtain rfl : status = 0 := hacc
      cases c <;> simp [Safe, hs, received, deliver, hres, etimedout]
    | lookupDone status ai =>
      have hle := hp.2
      by_cases hzero : status = 0
      · simp [Safe, received, hzero]
      · have : ¬ 0 ≤ status := by omega
        simp [Safe, received, hzero, this]
    | connectDone status => simp [Session.Pending, hreq] at hp
    | readDone c own nread data => cases c <;> simp [Session.Pending, hin.reads, hout.reads] at hp
    | writeDone c status => cases c <;> simp [Session.Pending, hin.writes, hout.writes] at hp
    | closeDone c h => exact absurd rfl (hclose rfl c h)
  case reqConnect =>
    obtain ⟨hin, hout, hreq, hres⟩ := hphase
    have hquiet := quiet_received ret (Side.forall.mpr ⟨hin, hout⟩) hp
    have hstop : Stopped (s.received ret e) := fun c => ⟨(hquiet c).rd, (hquiet c).wr⟩
    rw [doState, doReqConnect_fails, or_iff_right (not_not_intro hstop)]
    cases e with
    | timerExpire c status =>
      obtain rfl : status = 0 := hacc
      cases c <;>
        simp [Safe, hs, received, deliver, hres, etimedout, Returns.Named]
    | lookupDone status ai => simp [Session.Pending, hreq] at hp
    | connectDone status =>
      simp [Event.ignored] at hignored
      simp [Safe, hs, received, Returns.Named, hignored]
    | readDone c own nread data => cases c <;> simp [Session.Pending, hin.reads, hout.reads] at hp
    | writeDone c status => cases c <;> simp [Session.Pending, hin.writes, hout.writes] at hp
    | closeDone c h => exact absurd rfl (hclose rfl c h)
  case proxyStart =>
    obtain ⟨hin, hout, hreq, -⟩ := hphase
    rw [doState, doProxyStart_fails (hin.isOpen hout).received (unused_received hout hp),
      wrote_received_iff hin, hin.safe_iff hout hreq (by simp [hs, SessState.isAlmostDead]) hp hacc
        (hclose rfl) (by simp [Safe, hs])]
    rintro status rfl
    simp [Event.ignored] at hignored
    simp [Safe, hs, hignored]
  case proxy =>
    obtain ⟨hin, hout, -, -⟩ := hphase
    refine iff_of_false (doProxy_fails (hin.isOpen hout).received) (not_not_intro ?_)
    cases e <;> simp_all [Safe, Session.Accepts, SessState.isAlmostDead]
  case kill =>
    obtain ⟨hin, hout⟩ := hphase
    refine iff_of_false (doKill_fails (hin.isOpen hout).received) (not_not_intro ?_)
    cases e <;> simp_all [Safe, Session.Accepts, SessState.isAlmostDead]
  case dead => exact absurd hs hne
  all_goals
    refine iff_of_false doAlmostDead_fails (not_not_intro ?_)
    cases e with
    | writeDone c status => simp [Session.Accepts, (hphase c).wr] at hacc
    | _ => simp_all [Safe, Session.Accepts]

theorem Piping.busy {a b : Conn} (h : Piping a b) :
    (a.writes ≠ [] → a.wrstate = .busy) ∧ (0 < b.reads → b.rdstate = .busy) := by
  cases h with
  | reading _ hwrites hrd => exact ⟨fun h => absurd hwrites h, fun _ => hrd⟩
  | writing hwr _ _ hreads => exact ⟨fun _ => hwr, fun h => by omega⟩

/-- A read or a write of libuv is one that the session waits for, until it closes the
connections. -/
theorem Phase.busy (h : Phase s) (hlive : s.state.isAlmostDead = false) :
    ((s.conn c).writes ≠ [] → (s.conn c).wrstate = .busy) ∧
      (0 < (s.conn c).reads → (s.conn c).rdstate = .busy) := by
  rw [Phase] at h
  cases hs : s.state <;> rw [hs] at h hlive
  case handshakeAuth => exact h.elim
  case handshake | reqParse =>
    cases c
    · exact ⟨fun hne => absurd h.1.writes hne, fun _ => h.1.rd⟩
    · exact ⟨fun hne => absurd h.2.1.writes hne, fun hpos => by simp [h.2.1.reads] at hpos⟩
  case reqStart | proxyStart =>
    cases c
    · exact ⟨fun _ => h.1.wr, fun hpos => by simp [h.1.reads] at hpos⟩
    · exact ⟨fun hne => absurd h.2.1.writes hne, fun hpos => by simp [h.2.1.reads] at hpos⟩
  case reqLookup | reqConnect =>
    cases c
    · exact ⟨fun hne => absurd h.1.writes hne, fun hpos => by simp [h.1.reads] at hpos⟩
    · exact ⟨fun hne => absurd h.2.1.writes hne, fun hpos => by simp [h.2.1.reads] at hpos⟩
  case proxy =>
    cases c
    · exact ⟨h.1.busy.1, h.2.1.busy.2⟩
    · exact ⟨h.2.1.busy.1, h.1.busy.2⟩
  case kill =>
    cases c
    · exact ⟨fun _ => h.1.wr, fun hpos => by simp [h.1.reads] at hpos⟩
    · exact ⟨fun hne => absurd h.2.writes hne, fun hpos => by simp [h.2.reads] at hpos⟩
  all_goals simp [SessState.isAlmostDead] at hlive

theorem Inv.onEvent_fails (hinv : Inv s) (hp : s.Pending e) (hfreed : s.freed = false) :
    FailsWith Abort.Fatal (onEvent ret e) s ↔ ¬ Safe s ret e := by
  by_cases hignored : e.ignored = true
  · cases e <;> simp [Event.ignored] at hignored <;>
      simp [onEvent, connConnectDone, connWriteDone, Safe, hignored]
  · simp only [Bool.not_eq_true] at hignored
    by_cases hacc : s.Accepts e
    · rw [Client.onEvent_fails hfreed hignored hacc, hinv.doNext_fails hp hfreed hignored hacc]
    · rw [onEvent_fails_of_not_accepts hfreed hignored hacc]
      cases e with
      | timerExpire c status =>
        have hzero : status ≠ 0 := hacc
        simp [Safe, hzero]
      | lookupDone status ai => simpa [Session.Accepts, Safe] using hacc
      | connectDone status => exact absurd trivial hacc
      | readDone c own nread data =>
        have hrd : (s.conn c).rdstate = .busy := by
          by_cases hdead : s.state.isAlmostDead = true
          · simp [Session.Pending, (hinv.phase.closed hdead c).reads] at hp
          · exact (hinv.phase.busy (by simpa using hdead)).2 hp.1
        have hown : own ≠ true := fun hown => hacc ⟨hown, hrd⟩
        simp [Safe, hown]
      | writeDone c status =>
        have hdead : s.state.isAlmostDead = true := by
          by_contra hlive
          exact hacc ((hinv.phase.busy (by simpa using hlive)).1 hp)
        have hstatus : status ≠ ecanceled := by simpa [Event.ignored] using hignored
        simp [Safe, hdead, hstatus]
      | closeDone c p => exact absurd trivial hacc

/-- In every session and for every completion it can receive: no `ASSERT` on a half-operation
fails and no `UNREACHABLE` is reached if and only if the completion is `Safe`. -/
theorem asserts_hold_iff (h : Reachable Init Step s) (hp : s.Pending e) :
    (∀ t, onEvent ret e s ≠ .error .assertState t ∧ onEvent ret e s ≠ .error .unreachable t) ↔
      (s.freed = false → Safe s ret e) := by
  have hfails : (∀ t, onEvent ret e s ≠ .error .assertState t ∧
      onEvent ret e s ≠ .error .unreachable t) ↔ ¬ FailsWith Abort.Fatal (onEvent ret e) s := by
    refine ⟨?_, fun hno t => ⟨fun habort => ?_, fun habort => ?_⟩⟩
    · rintro hno ⟨_, t, rfl | rfl, habort⟩
      · exact (hno t).1 habort
      · exact (hno t).2 habort
    · exact hno ⟨_, t, fatal_assertState, habort⟩
    · exact hno ⟨_, t, fatal_unreachable, habort⟩
  rw [hfails]
  cases hfreed : s.freed with
  | true => simp [onEvent, hfreed]
  | false => simp [(Inv.of_reachable h).onEvent_fails hp hfreed]

theorem asserts_hold_iff_start :
    (∀ t, onEvent .ok (.readDone .incoming true 3 [5, 1, 0]) start ≠ .error .assertState t ∧
        onEvent .ok (.readDone .incoming true 3 [5, 1, 0]) start ≠ .error .unreachable t) ↔
      (start.freed = false → Safe start .ok (.readDone .incoming true 3 [5, 1, 0])) :=
  asserts_hold_iff reachable_start (by decide)

/-- A client that says nothing until its timer expires. -/
theorem silentClient_aborts :
    ∃ s t, Reachable Init Step s ∧ s.Pending (.timerExpire .incoming 0) ∧
      onEvent .ok (.timerExpire .incoming 0) s = .error .assertState t :=
  ⟨start, _, reachable_start, by decide, by rfl⟩

end LibuvWorks.Socks5.Client
