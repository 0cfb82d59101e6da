import LibuvWorks.Socks5.Turns
import LibuvWorks.Lib.Transition

/-!
# The phases of a session

In each state the two connections are in one of a few combinations of half-operations, and
what libuv holds for them agrees with it. `Inv` says which; every step keeps it.
-/
namespace LibuvWorks.Socks5.Client

open Session (deliver received received_state skipped)
open Function (update update_apply)

structure Idle (k : Conn) : Prop where
  rd : k.rdstate = .stop
  wr : k.wrstate = .stop
  reads : k.reads = 0
  writes : k.writes = []

structure Reading (k : Conn) : Prop where
  rd : k.rdstate = .busy
  wr : k.wrstate = .stop
  reads : k.reads = 1
  writes : k.writes = []

structure Writing (k : Conn) : Prop where
  rd : k.rdstate = .stop
  wr : k.wrstate = .busy
  reads : k.reads = 0
  writes : k.writes.length ≤ 1

/-- `conn_close` has been called. -/
structure Closed (k : Conn) : Prop where
  rd : k.rdstate = .dead
  wr : k.wrstate = .dead
  timer : k.timer = false
  reads : k.reads = 0
  writes : k.writes.length ≤ 1

/-- One direction of the proxy: `b` is being read, or what was read is being written to `a`. -/
inductive Piping (a b : Conn) : Prop
  | reading (hwr : a.wrstate = .stop) (hwrites : a.writes = []) (hrd : b.rdstate = .busy)
    (hreads : b.reads = 1)
  | writing (hwr : a.wrstate = .busy) (hwrites : a.writes.length ≤ 1) (hrd : b.rdstate = .stop)
    (hreads : b.reads = 0)

/-- What the connections do in each state. -/
def Phase (s : Session) : Prop :=
  match s.state with
  | .handshake | .reqParse =>
    Reading (s.conn .incoming) ∧ Idle (s.conn .outgoing) ∧ (s.conn .outgoing).req = none ∧
      (s.conn .outgoing).result = 0
  | .handshakeAuth => False
  | .reqStart =>
    Writing (s.conn .incoming) ∧ Idle (s.conn .outgoing) ∧ (s.conn .outgoing).req = none ∧
      (s.conn .outgoing).result = 0
  | .reqLookup =>
    Idle (s.conn .incoming) ∧ Idle (s.conn .outgoing) ∧
      (s.conn .outgoing).req = some .addrinfo ∧ (s.conn .outgoing).result = 0
  | .reqConnect =>
    Idle (s.conn .incoming) ∧ Idle (s.conn .outgoing) ∧
      (s.conn .outgoing).req ≠ some .addrinfo ∧ (s.conn .outgoing).result = 0
  | .proxyStart =>
    Writing (s.conn .incoming) ∧ Idle (s.conn .outgoing) ∧
      (s.conn .outgoing).req ≠ some .addrinfo ∧ (s.conn .outgoing).result = 0
  | .proxy =>
    Piping (s.conn .incoming) (s.conn .outgoing) ∧
      Piping (s.conn .outgoing) (s.conn .incoming) ∧
      (s.conn .outgoing).req ≠ some .addrinfo ∧ ∀ c, 0 ≤ (s.conn c).result
  | .kill => Writing (s.conn .incoming) ∧ Idle (s.conn .outgoing)
  | .almostDead0 | .almostDead1 | .almostDead2 | .almostDead3 | .almostDead4 | .dead =>
    ∀ c, Closed (s.conn c)

structure Inv (s : Session) : Prop where
  phase : Phase s
  isOpen : s.state.isAlmostDead = false → ∀ c h, (s.conn c).closing h = false
  timer : s.state.isAlmostDead = false → (s.conn .incoming).timer = true
  req : (s.conn .incoming).req = none
  freed : s.freed = true ↔ s.state = .dead

variable {ret : Returns} {s t u : Session} {c : Side} {e : Event} {st : SessState}
  {a' b' k k' : Conn}

theorem Inv.of_init (h : Init s) : Inv s := by
  obtain ⟨ret, t, h⟩ := h
  obtain ⟨-, -, -, rfl⟩ := connRead_ok.mp h
  refine ⟨?_, ?_, ?_, ?_, ?_⟩
  · refine ⟨⟨?_, ?_, ?_, ?_⟩, ⟨?_, ?_, ?_, ?_⟩, ?_, ?_⟩ <;> simp [fresh]
  · simp [fresh, Side.forall]
  · simp
  · simp [fresh]
  · simp [fresh]

/-! ### What an event can have changed -/

theorem received_rd (h : ((s.received ret e).conn c).rdstate ≠ (s.conn c).rdstate) :
    ∃ own nread data, e = .readDone c own nread data := by
  cases e <;> simp [received, deliver, update_apply] at h ⊢ <;> grind

theorem received_wr (h : ((s.received ret e).conn c).wrstate ≠ (s.conn c).wrstate) :
    ∃ status, e = .writeDone c status := by
  cases e <;> simp [received, deliver, update_apply] at h ⊢ <;> grind

theorem received_closing (h : ∀ d p, e ≠ .closeDone d p) :
    ((s.received ret e).conn c).closing = (s.conn c).closing := by
  cases e <;> simp [received, deliver, update_apply] at h ⊢ <;> grind

@[simp] theorem received_freed : (s.received ret e).freed = s.freed := by
  cases e <;> simp [received]

theorem received_req : ((s.received ret e).conn .incoming).req = (s.conn .incoming).req := by
  cases e <;> simp [received, deliver, update_apply] <;> grind

/-! ### What a turn keeps -/

theorem ConnectStart.freed (h : ConnectStart ret s st t) : t.freed = s.freed := by
  cases h <;> simp

variable {a b : Side}

theorem Cycle.freed (h : Cycle ret a b s t) : t.freed = s.freed := by
  cases h <;> simp

theorem Turn.freed (h : Turn ret s st t) : t.freed = s.freed := by
  cases h with
  | address _ _ _ _ _ _ hstart | resolved _ _ _ _ _ hstart => simpa using hstart.freed
  | cycle _ _ _ _ hin hout => rw [hout.freed, hin.freed]
  | _ => simp

theorem ConnectStart.req (h : ConnectStart ret s st t) :
    (t.conn .incoming).req = (s.conn .incoming).req := by
  cases h <;> simp

theorem Cycle.req (h : Cycle ret a b s t) : (t.conn c).req = (s.conn c).req := by
  cases h <;> simp [update_apply] <;> grind

theorem Turn.req (h : Turn ret s st t) : (t.conn .incoming).req = (s.conn .incoming).req := by
  cases h with
  | address _ _ _ _ _ _ hstart | resolved _ _ _ _ _ hstart => simpa using hstart.req
  | cycle _ _ _ _ hin hout => rw [hout.req, hin.req]
  | _ => simp

theorem killState_isAlmostDead : (killState st).isAlmostDead = true := by
  unfold killState
  split <;> rfl

theorem ConnectStart.closing (h : ConnectStart ret s st t) (hlive : st.isAlmostDead = false) :
    (t.conn c).closing = (s.conn c).closing := by
  cases h with
  | failed => simp [killState_isAlmostDead] at hlive
  | _ => simp [update_apply]; grind

theorem Cycle.closing (h : Cycle ret a b s t) :
    (t.conn c).closing = (s.conn c).closing := by
  cases h <;> simp [update_apply] <;> grind

theorem killState_ne {st' : SessState} (h : st'.isAlmostDead = false) : killState st ≠ st' := by
  rintro rfl
  simp [killState_isAlmostDead] at h

theorem Turn.closing (h : Turn ret s st t) (hlive : st.isAlmostDead = false) :
    (t.conn c).closing = (s.conn c).closing := by
  cases h with
  | kill => simp [killState_isAlmostDead] at hlive
  | address _ _ _ _ _ _ hstart =>
    rw [hstart.closing hlive]
    simp [update_apply]; grind
  | resolved _ _ _ _ _ hstart => rw [hstart.closing hlive]; simp [update_apply]; grind
  | cycle _ _ _ _ hin hout => rw [hout.closing, hin.closing]
  | finalizer => rfl
  | _ => simp [update_apply]; grind

/-! ### The step -/

/-- What a turn leads to: the combination of its new state, and a running timer of the client. -/
def Settles (st : SessState) (u : Session) : Prop :=
  Phase (u.enter st) ∧ (st.isAlmostDead = false → (u.conn .incoming).timer = true)

theorem Piping.writes {a b : Conn} (h : Piping a b) : a.writes.length ≤ 1 := by
  cases h with
  | reading _ hwrites => simp [hwrites]
  | writing _ hwrites => exact hwrites

theorem Phase.writes (h : Phase s) : (s.conn c).writes.length ≤ 1 := by
  unfold Phase at h
  split at h
  case h_8 =>
    cases c
    · exact h.1.writes
    · exact h.2.1.writes
  all_goals first
    | exact h.elim
    | exact (h c).writes
    | (cases c <;> simp [h.1.writes, h.2.1.writes])
    | (cases c <;> simp [h.1.writes, h.2.writes])

theorem Phase.reading (h : Phase s) (hreads : 0 < (s.conn c).reads) :
    (s.conn c).reads = 1 ∧ (s.conn c.other).writes = [] := by
  unfold Phase at h
  cases hs : s.state <;> rw [hs] at h
  case handshake | reqParse =>
    cases c
    · exact ⟨h.1.reads, h.2.1.writes⟩
    · simp [h.2.1.reads] at hreads
  case handshakeAuth => exact h.elim
  case reqStart | proxyStart | reqLookup | reqConnect =>
    cases c
    · simp [h.1.reads] at hreads
    · simp [h.2.1.reads] at hreads
  case proxy =>
    have hread : ∀ {a b : Conn}, Piping a b → 0 < b.reads → b.reads = 1 ∧ a.writes = [] := by
      rintro a b (⟨-, hwrites, -, hone⟩ | ⟨-, -, -, hzero⟩) hpos
      · exact ⟨hone, hwrites⟩
      · omega
    cases c
    · exact hread h.2.1 hreads
    · exact hread h.1 hreads
  case kill =>
    cases c
    · simp [h.1.reads] at hreads
    · simp [h.2.reads] at hreads
  all_goals simp [(h c).reads] at hreads

theorem received_writes :
    ((s.received ret e).conn c).writes.length ≤ (s.conn c).writes.length := by
  cases e <;> simp [received, deliver, update_apply] <;> grind

theorem killed_settles (p : S5Ctx) (h : ∀ c, (s.conn c).writes.length ≤ 1) :
    Settles (killState st) (s.killed.setParser p) := by
  refine ⟨?_, fun hlive => by simp [killState_isAlmostDead] at hlive⟩
  have hclosed : ∀ c, Closed ((s.killed.setParser p).conn c) := by
    refine Side.forall.mpr ⟨⟨?_, ?_, ?_, ?_, ?_⟩, ⟨?_, ?_, ?_, ?_, ?_⟩⟩ <;> simp [h]
  unfold killState
  split
  · exact hclosed
  · exact hclosed

def Quiet (s : Session) : Prop := ∀ c, Idle (s.conn c)

theorem Quiet.reads (h : Quiet s) :
    Reading ((s.reads .incoming).conn .incoming) ∧ Idle ((s.reads .incoming).conn .outgoing) := by
  refine ⟨⟨?_, ?_, ?_, ?_⟩, ⟨?_, ?_, ?_, ?_⟩⟩ <;>
    simp [(h _).rd, (h _).wr, (h _).reads, (h _).writes]

theorem Quiet.writes (h : Quiet s) (src : Option Side) (data : List UInt8) :
    Writing ((s.writes .incoming src data).conn .incoming) ∧
      Idle ((s.writes .incoming src data).conn .outgoing) := by
  refine ⟨⟨?_, ?_, ?_, ?_⟩, ⟨?_, ?_, ?_, ?_⟩⟩ <;>
    simp [(h _).rd, (h _).wr, (h _).reads, (h _).writes]

theorem ConnectStart.settles (h : ConnectStart ret s st t) (hquiet : Quiet s)
    (hreq : (s.conn .outgoing).req = none →
      (s.conn .outgoing).result = 0 ∧ (s.conn .incoming).timer = true) :
    Settles st t := by
  cases h with
  | denied =>
    have hwrites := Quiet.writes (s := s.note (.access (s.conn .outgoing).t.addr false)) hquiet
      none [5, 2, 0, 1, 0, 0, 0, 0, 0, 0]
    exact ⟨by simpa [Phase] using hwrites, fun _ => by simp⟩
  | connecting _ _ hnone =>
    refine ⟨⟨⟨?_, ?_, ?_, ?_⟩, ⟨?_, ?_, ?_, ?_⟩, ?_, ?_⟩, fun _ => ?_⟩ <;>
      simp [(hquiet _).rd, (hquiet _).wr, (hquiet _).reads, (hquiet _).writes, hreq hnone]
  | failed _ _ hstate =>
    refine killed_settles s.parser (Side.forall.mpr ⟨?_, ?_⟩)
    · simp [(hquiet _).writes]
    · simp [(hquiet _).writes]

/-- What is left of a session whose client has been read, or written to. -/
structure Noticed (s u : Session) : Prop where
  quiet : Quiet u
  req : (u.conn .outgoing).req = (s.conn .outgoing).req
  result : (u.conn .outgoing).result = (s.conn .outgoing).result
  timer : (u.conn .incoming).timer = (s.conn .incoming).timer

theorem noticed_of_gotData (h : GotData (s.received ret e)) (hin : Reading (s.conn .incoming))
    (hout : Idle (s.conn .outgoing)) (p : S5Ctx) : Noticed s ((s.received ret e).settled p) := by
  have hne : ((s.received ret e).conn .incoming).rdstate ≠ (s.conn .incoming).rdstate := by
    simp [h.rd, hin.rd]
  obtain ⟨own, nread, data, rfl⟩ := received_rd hne
  refine ⟨Side.forall.mpr ⟨⟨?_, ?_, ?_, ?_⟩, ⟨?_, ?_, ?_, ?_⟩⟩, ?_, ?_, ?_⟩ <;>
    simp [received, deliver, hin.reads, hin.writes, hout.rd, hout.wr, hout.reads,
      hout.writes]

theorem noticed_of_wrote (h : Wrote (s.received ret e)) (hin : Writing (s.conn .incoming))
    (hout : Idle (s.conn .outgoing)) (p : S5Ctx) : Noticed s ((s.received ret e).settled p) := by
  have hne : ((s.received ret e).conn .incoming).wrstate ≠ (s.conn .incoming).wrstate := by
    simp [h.wr, hin.wr]
  obtain ⟨status, rfl⟩ := received_wr hne
  have htail : (s.conn .incoming).writes.tail = [] := by
    have := hin.writes
    exact List.length_eq_zero_iff.mp (by simp; omega)
  refine ⟨Side.forall.mpr ⟨⟨?_, ?_, ?_, ?_⟩, ⟨?_, ?_, ?_, ?_⟩⟩, ?_, ?_, ?_⟩ <;>
    simp [received, deliver, hin.reads, htail, hout.rd, hout.wr, hout.reads,
      hout.writes]

theorem quiet_received (ret : Returns) (h : Quiet s) (hp : s.Pending e) :
    Quiet (s.received ret e) := by
  intro c
  have hidle := h c
  cases e with
  | readDone d own nread data => simp [Session.Pending, (h d).reads] at hp
  | writeDone d status => simp [Session.Pending, (h d).writes] at hp
  | _ =>
    refine ⟨?_, ?_, ?_, ?_⟩ <;>
      simp [received, deliver, update_apply] <;>
      grind [Idle]

theorem phase_enter (hst : st.isAlmostDead = true) (h : ∀ c, Closed (u.conn c)) :
    Phase (u.enter st) := by
  cases st <;> first | (simp [SessState.isAlmostDead] at hst; done) | simpa [Phase] using h

theorem succ_isAlmostDead (hst : st.isAlmostDead = true) : st.succ.isAlmostDead = true := by
  cases st <;> simp [SessState.isAlmostDead] at hst <;> rfl

inductive Flow (a b : Conn) : Prop
  | reading (hwr : a.wrstate = .stop) (hwrites : a.writes = []) (hrd : b.rdstate = .busy)
    (hreads : b.reads = 1)
  | read (hwr : a.wrstate = .stop) (hwrites : a.writes = []) (hrd : b.rdstate = .done)
    (hreads : b.reads = 0)
  | writing (hwr : a.wrstate = .busy) (hwrites : a.writes.length ≤ 1) (hrd : b.rdstate = .stop)
    (hreads : b.reads = 0)
  | written (hwr : a.wrstate = .done) (hwrites : a.writes = []) (hrd : b.rdstate = .stop)
    (hreads : b.reads = 0)

theorem Flow.congr {a b : Conn} (h : Flow a b) (hwr : a'.wrstate = a.wrstate)
    (hwrites : a'.writes = a.writes) (hrd : b'.rdstate = b.rdstate) (hreads : b'.reads = b.reads) :
    Flow a' b' := by
  cases h with
  | reading h₁ h₂ h₃ h₄ => exact .reading (hwr ▸ h₁) (hwrites ▸ h₂) (hrd ▸ h₃) (hreads ▸ h₄)
  | read h₁ h₂ h₃ h₄ => exact .read (hwr ▸ h₁) (hwrites ▸ h₂) (hrd ▸ h₃) (hreads ▸ h₄)
  | writing h₁ h₂ h₃ h₄ => exact .writing (hwr ▸ h₁) (hwrites ▸ h₂) (hrd ▸ h₃) (hreads ▸ h₄)
  | written h₁ h₂ h₃ h₄ => exact .written (hwr ▸ h₁) (hwrites ▸ h₂) (hrd ▸ h₃) (hreads ▸ h₄)

theorem Piping.congr {a b : Conn} (h : Piping a b) (hwr : a'.wrstate = a.wrstate)
    (hwrites : a'.writes = a.writes) (hrd : b'.rdstate = b.rdstate) (hreads : b'.reads = b.reads) :
    Piping a' b' := by
  cases h with
  | reading h₁ h₂ h₃ h₄ => exact .reading (hwr ▸ h₁) (hwrites ▸ h₂) (hrd ▸ h₃) (hreads ▸ h₄)
  | writing h₁ h₂ h₃ h₄ => exact .writing (hwr ▸ h₁) (hwrites ▸ h₂) (hrd ▸ h₃) (hreads ▸ h₄)

theorem Piping.received (h : Piping (s.conn a) (s.conn b)) (ret : Returns)
    (hp : s.Pending e) (hacc : s.Accepts e) :
    Flow ((s.received ret e).conn a) ((s.received ret e).conn b) := by
  cases h with
  | reading hwr hwrites hrd hreads =>
    by_cases hread : ∃ own nread data, e = .readDone b own nread data
    · obtain ⟨own, nread, data, rfl⟩ := hread
      refine .read ?_ ?_ ?_ ?_ <;>
        simp [received, deliver, update_apply] <;> grind
    · refine .reading ?_ ?_ ?_ ?_ <;> cases e <;>
        simp [received, deliver, Session.Pending, update_apply] at hread hp ⊢ <;>
        grind
  | writing hwr hwrites hrd hreads =>
    by_cases hwrite : ∃ status, e = .writeDone a status
    · obtain ⟨status, rfl⟩ := hwrite
      have htail : (s.conn a).writes.tail = [] :=
        List.length_eq_zero_iff.mp (by simp; omega)
      refine .written ?_ ?_ ?_ ?_ <;>
        simp [received, deliver, update_apply] <;> grind
    · refine .writing ?_ ?_ ?_ ?_ <;> cases e <;>
        simp [received, deliver, Session.Pending, update_apply] at hwrite hp ⊢ <;>
        grind

theorem Flow.cycle (h : Flow (s.conn a) (s.conn b)) (hab : a ≠ b)
    (hcycle : Cycle ret a b s t) : Piping (t.conn a) (t.conn b) := by
  cases hcycle with
  | writing hwr hdone =>
    cases h with
    | writing h₁ h₂ h₃ h₄ => exact .writing h₁ h₂ h₃ h₄
    | reading h₁ | read h₁ => exact absurd h₁ hwr
    | written h₁ => exact absurd h₁ hdone
  | read hwr hrd =>
    cases h with
    | written h₁ h₂ h₃ h₄ =>
      exact .reading (by simp [hab]) (by simp [hab, h₂]) (by simp) (by simp [hab.symm, h₄])
    | writing h₁ => simp [h₁] at hwr
    | reading _ _ h₃ | read _ _ h₃ => simp [h₃] at hrd
  | write hwr hrd =>
    cases h with
    | read h₁ h₂ h₃ h₄ =>
      exact .writing (by simp [hab]) (by simp [hab, h₂]) (by simp) (by simp [hab.symm, h₄])
    | writing h₁ => simp [h₁] at hwr
    | reading _ _ h₃ | written _ _ h₃ => simp [h₃] at hrd
  | wait hwr hstop hdone =>
    cases h with
    | reading h₁ h₂ h₃ h₄ =>
      exact .reading (by simp) (by simp [h₂]) (by simp [hab.symm, h₃]) (by simp [hab.symm, h₄])
    | writing h₁ => simp [h₁] at hwr
    | read _ _ h₃ => exact absurd h₃ hdone
    | written _ _ h₃ => exact absurd h₃ hstop

theorem Cycle.other (hcycle : Cycle ret a b s t) (hab : a ≠ b) :
    (t.conn b).wrstate = (s.conn b).wrstate ∧ (t.conn b).writes = (s.conn b).writes ∧
      (t.conn a).rdstate = (s.conn a).rdstate ∧ (t.conn a).reads = (s.conn a).reads := by
  cases hcycle <;> simp [hab, hab.symm]

theorem Cycle.timer (h : Cycle ret a b s t) (htimer : (s.conn c).timer = true) :
    (t.conn c).timer = true := by
  cases h with
  | writing => exact htimer
  | _ => simp [update_apply]; grind

theorem received_timer (he : ∀ status, e ≠ .timerExpire c status)
    (htimer : (s.conn c).timer = true) : ((s.received ret e).conn c).timer = true := by
  cases e <;> simp [received, deliver, update_apply] at he ⊢ <;> grind

theorem received_lookup (h : (s.conn c).req ≠ some .addrinfo) :
    ((s.received ret e).conn c).req ≠ some .addrinfo := by
  cases e <;> simp [received, deliver, update_apply] <;> grind

theorem Phase.closed (h : Phase s) (hdead : s.state.isAlmostDead = true) :
    ∀ c, Closed (s.conn c) := by
  unfold Phase at h
  split at h <;> simp_all [SessState.isAlmostDead]

theorem closed_received (h : ∀ c, Closed (s.conn c)) (hp : s.Pending e) (hacc : s.Accepts e) :
    ∀ c, Closed ((s.received ret e).conn c) := by
  intro c
  cases e with
  | timerExpire d status => simp [Session.Pending, (h d).timer] at hp
  | readDone d own nread data => simp [Session.Pending, (h d).reads] at hp
  | writeDone d status => simp [Session.Accepts, (h d).wr] at hacc
  | _ =>
    refine ⟨?_, ?_, ?_, ?_, ?_⟩ <;>
      simp [received, deliver, update_apply] <;>
      grind [Closed]

theorem Idle.congr (h : Idle k) (hrd : k'.rdstate = k.rdstate)
    (hwr : k'.wrstate = k.wrstate) (hreads : k'.reads = k.reads) (hwrites : k'.writes = k.writes) :
    Idle k' :=
  ⟨hrd.trans h.rd, hwr.trans h.wr, hreads.trans h.reads, hwrites.trans h.writes⟩

theorem Noticed.reads (h : Noticed s u) (hreq : (s.conn .outgoing).req = none)
    (hres : (s.conn .outgoing).result = 0) (hst : st = .handshake ∨ st = .reqParse) :
    Settles st (u.reads .incoming) := by
  obtain ⟨hread, hidle⟩ := h.quiet.reads
  have hreq' : ((u.reads .incoming).conn .outgoing).req = none := by simpa using h.req.trans hreq
  have hres' : ((u.reads .incoming).conn .outgoing).result = 0 := by
    simpa using h.result.trans hres
  rcases hst with rfl | rfl <;> exact ⟨⟨hread, hidle, hreq', hres'⟩, fun _ => by simp⟩

theorem Quiet.refuses (h : Quiet u) (data : List UInt8) :
    Settles .kill (u.writes .incoming none data) := by
  obtain ⟨hwrite, hidle⟩ := h.writes none data
  exact ⟨⟨hwrite, hidle⟩, fun _ => by simp⟩

theorem Inv.turn (hinv : Inv s) (hp : s.Pending e) (hacc : s.Accepts e)
    (hturn : Turn ret (s.received ret e) st u) :
    Settles st u := by
  have hphase : ∀ {st'}, (s.received ret e).state = st' → Phase { s with state := st' } := by
    rintro _ rfl
    rw [received_state]
    exact hinv.phase
  have htimer : ∀ {st'}, (s.received ret e).state = st' → st'.isAlmostDead = false →
      (s.conn .incoming).timer = true := by
    rintro _ rfl hlive
    exact hinv.timer (received_state ▸ hlive)
  cases hturn with
  | kill p => exact killed_settles p fun c => received_writes.trans hinv.phase.writes
  | greet hstate h =>
    obtain ⟨hin, hout, hreq, hres⟩ := hphase hstate
    exact (noticed_of_gotData h hin hout _).reads hreq hres (.inl rfl)
  | selectAuth hstate h =>
    obtain ⟨hin, hout, hreq, hres⟩ := hphase hstate
    obtain ⟨hquiet, hreq', hres', -⟩ := noticed_of_gotData h hin hout
      (s5SelectAuth (s.received ret e).parsed.2.2 .none).2
    obtain ⟨hwrite, hidle⟩ := hquiet.writes none [5, 0]
    refine ⟨⟨hwrite, hidle, ?_, ?_⟩, fun _ => by simp⟩
    · simpa using hreq'.trans hreq
    · simpa using hres'.trans hres
  | refuseAuth hstate h =>
    obtain ⟨hin, hout, -, -⟩ := hphase hstate
    exact (noticed_of_gotData h hin hout _).quiet.refuses _
  | startRequest hstate h =>
    obtain ⟨hin, hout, hreq, hres⟩ := hphase hstate
    exact (noticed_of_wrote h hin hout _).reads hreq hres (.inr rfl)
  | readRequest hstate h =>
    obtain ⟨hin, hout, hreq, hres⟩ := hphase hstate
    exact (noticed_of_gotData h hin hout _).reads hreq hres (.inr rfl)
  | lookup p hstate h hatyp =>
    obtain ⟨hin, hout, hreq, hres⟩ := hphase hstate
    obtain ⟨hquiet, hreq', hres', htimer'⟩ := noticed_of_gotData h hin hout p
    refine ⟨⟨?_, (hquiet .outgoing).congr ?_ ?_ ?_ ?_, ?_, ?_⟩, fun _ => ?_⟩
    · simpa using hquiet .incoming
    iterate 5 simp
    · simpa using hres'.trans hres
    · simpa using htimer'.trans (htimer hstate rfl)
  | address p st t hstate h hatyp hstart =>
    obtain ⟨hin, hout, hreq, hres⟩ := hphase hstate
    obtain ⟨hquiet, hreq', hres', htimer'⟩ := noticed_of_gotData h hin hout p
    refine hstart.settles (Side.forall.mpr ⟨?_, (hquiet .outgoing).congr ?_ ?_ ?_ ?_⟩)
      fun _ => ⟨?_, ?_⟩
    · simpa using hquiet .incoming
    iterate 4 simp
    · simpa using hres'.trans hres
    · simpa using htimer'.trans (htimer hstate rfl)
  | lookupFailed hstate h hres =>
    obtain ⟨hin, hout, -, -⟩ := hphase hstate
    exact (quiet_received (s := s) ret (Side.forall.mpr ⟨hin, hout⟩) hp).refuses _
  | resolved st t hstate h hres hstart =>
    obtain ⟨hin, hout, hreq, hres₀⟩ := hphase hstate
    dsimp only at hreq hres₀
    have hquiet := quiet_received (s := s) ret (Side.forall.mpr ⟨hin, hout⟩) hp
    refine hstart.settles (Side.forall.mpr ⟨?_, (hquiet .outgoing).congr ?_ ?_ ?_ ?_⟩) ?_
    · simpa using hquiet .incoming
    iterate 4 simp
    · intro hnone
      cases e with
      | lookupDone status ai =>
        have hzero : status = 0 := by
          have := hp.2
          simp [received] at hres
          omega
        exact ⟨by simp [received, hzero],
          by simpa [received, deliver] using htimer hstate rfl⟩
      | connectDone status => simp [Session.Pending, hreq] at hp
      | _ => simp [received, deliver, update_apply] at hnone; grind
  | success reply hstate h hres hreply =>
    obtain ⟨hin, hout, hreq, -⟩ := hphase hstate
    have hquiet := quiet_received (s := s) ret (Side.forall.mpr ⟨hin, hout⟩) hp
    refine ⟨⟨⟨?_, ?_, ?_, ?_⟩, ?_, ?_, ?_⟩, fun _ => by simp⟩
    · simpa using (hquiet .incoming).rd
    · simp
    · simpa using (hquiet .incoming).reads
    · simp [(hquiet .incoming).writes]
    · simpa using hquiet .outgoing
    · simpa using received_lookup (s := s) hreq
    · simpa using hres
  | refused hstate h hres =>
    obtain ⟨hin, hout, -, -⟩ := hphase hstate
    exact (quiet_received (s := s) ret (Side.forall.mpr ⟨hin, hout⟩) hp).refuses _
  | startProxy hstate h hres =>
    obtain ⟨hin, hout, hreq, hres₀⟩ := hphase hstate
    obtain ⟨hquiet, hreq', hres', -⟩ := noticed_of_wrote h hin hout (s.received ret e).parser
    refine ⟨⟨.reading ?_ ?_ ?_ ?_, .reading ?_ ?_ ?_ ?_, ?_, Side.forall.mpr ⟨?_, ?_⟩⟩,
      fun _ => by simp⟩
    · simp
    · simpa using (hquiet .incoming).writes
    · simp
    · simpa using (hquiet .outgoing).reads
    · simpa using (hquiet .outgoing).wr
    · simpa using (hquiet .outgoing).writes
    · simp
    · simpa using (hquiet .incoming).reads
    · have := hreq'.trans_ne hreq
      simpa using this
    · simpa using hres
    · simpa using (hres'.trans hres₀).ge
  | cycle v t hstate hres hfirst hsecond =>
    obtain ⟨hin, hout, hreq, -⟩ := hphase hstate
    have hflow := (Piping.received (s := s) hin ret hp hacc).cycle (by decide) hfirst
    obtain ⟨hwr, hwrites, hrd, hreads⟩ := hfirst.other (by decide)
    have hother := (Piping.received (s := s) hout ret hp hacc).congr hwr hwrites hrd hreads
    refine ⟨⟨?_, ?_, ?_, ?_⟩, fun _ => ?_⟩
    · obtain ⟨hwr, hwrites, hrd, hreads⟩ := hsecond.other (by decide)
      simpa using hflow.congr hwr hwrites hrd hreads
    · simpa using hother.cycle (by decide) hsecond
    · simpa [hsecond.req, hfirst.req] using received_lookup (s := s) hreq
    · simpa [hsecond.result, hfirst.result] using hres
    · refine hsecond.timer (hfirst.timer (received_timer ?_ (htimer hstate rfl)))
      rintro status rfl
      have := hres .incoming
      simp [received, etimedout] at this
  | finalizer hstate =>
    rw [received_state] at hstate ⊢
    refine ⟨phase_enter (succ_isAlmostDead hstate) ?_, fun hlive => ?_⟩
    · exact closed_received (hinv.phase.closed hstate) hp hacc
    · simp [succ_isAlmostDead hstate] at hlive

/-- A connection of which at most a write is no longer in flight. -/
structure Fewer (k k' : Conn) : Prop where
  rd : k'.rdstate = k.rdstate
  wr : k'.wrstate = k.wrstate
  result : k'.result = k.result
  timer : k'.timer = k.timer
  reads : k'.reads = k.reads
  writes : k'.writes = k.writes ∨ k'.writes = k.writes.tail
  closing : k'.closing = k.closing

theorem Fewer.empty (h : Fewer k k') (hempty : k.writes = []) : k'.writes = [] := by
  obtain hsame | htail := h.writes <;> simp_all

theorem Fewer.length_le (h : Fewer k k') (hle : k.writes.length ≤ 1) : k'.writes.length ≤ 1 := by
  obtain hsame | htail := h.writes
  · rwa [hsame]
  · rw [htail, List.length_tail]
    omega

theorem Fewer.idle (h : Fewer k k') (hk : Idle k) : Idle k' :=
  ⟨h.rd.trans hk.rd, h.wr.trans hk.wr, h.reads.trans hk.reads, h.empty hk.writes⟩

theorem Fewer.reading (h : Fewer k k') (hk : Reading k) : Reading k' :=
  ⟨h.rd.trans hk.rd, h.wr.trans hk.wr, h.reads.trans hk.reads, h.empty hk.writes⟩

theorem Fewer.writing (h : Fewer k k') (hk : Writing k) : Writing k' :=
  ⟨h.rd.trans hk.rd, h.wr.trans hk.wr, h.reads.trans hk.reads, h.length_le hk.writes⟩

theorem Fewer.closed (h : Fewer k k') (hk : Closed k) : Closed k' :=
  ⟨h.rd.trans hk.rd, h.wr.trans hk.wr, h.timer.trans hk.timer, h.reads.trans hk.reads,
    h.length_le hk.writes⟩

theorem Fewer.piping {a b : Conn} (ha : Fewer a a') (hb : Fewer b b') (h : Piping a b) :
    Piping a' b' := by
  cases h with
  | reading hwr hwrites hrd hreads =>
    exact .reading (ha.wr.trans hwr) (ha.empty hwrites) (hb.rd.trans hrd) (hb.reads.trans hreads)
  | writing hwr hwrites hrd hreads =>
    exact .writing (ha.wr.trans hwr) (ha.length_le hwrites) (hb.rd.trans hrd)
      (hb.reads.trans hreads)

/-- The phase lasts when a write, or the request of the connection, is no longer in flight. -/
theorem Phase.fewer (h : Phase s) (hstate : t.state = s.state)
    (hconn : ∀ c, Fewer (s.conn c) (t.conn c))
    (hreq : (t.conn .outgoing).req = (s.conn .outgoing).req ∨
      (t.conn .outgoing).req = none ∧ (s.conn .outgoing).req = some .connect) : Phase t := by
  have hin := hconn .incoming
  have hout := hconn .outgoing
  unfold Phase at h ⊢
  rw [hstate]
  cases hs : s.state <;> rw [hs] at h
  case handshake | reqParse =>
    exact ⟨hin.reading h.1, hout.idle h.2.1, by grind, hout.result.trans h.2.2.2⟩
  case handshakeAuth => exact h
  case reqStart =>
    exact ⟨hin.writing h.1, hout.idle h.2.1, by grind, hout.result.trans h.2.2.2⟩
  case reqLookup | reqConnect =>
    exact ⟨hin.idle h.1, hout.idle h.2.1, by grind, hout.result.trans h.2.2.2⟩
  case proxyStart =>
    exact ⟨hin.writing h.1, hout.idle h.2.1, by grind, hout.result.trans h.2.2.2⟩
  case proxy =>
    exact ⟨hin.piping hout h.1, hout.piping hin h.2.1, by grind,
      fun c => (hconn c).result ▸ h.2.2.2 c⟩
  case kill => exact ⟨hin.writing h.1, hout.idle h.2⟩
  all_goals exact fun c => (hconn c).closed (h c)

theorem skipped_fewer (he : e.ignored = true) : Fewer (s.conn c) ((s.skipped e).conn c) := by
  cases e <;> simp [Event.ignored] at he <;>
    refine ⟨?_, ?_, ?_, ?_, ?_, ?_, ?_⟩ <;>
    simp [skipped, deliver, update_apply] <;> grind

@[simp] theorem skipped_state : (s.skipped e).state = s.state := by
  cases e <;> simp [skipped]

@[simp] theorem skipped_freed : (s.skipped e).freed = s.freed := by
  cases e <;> simp [skipped]

theorem Inv.skipped (hinv : Inv s) (hp : s.Pending e) (he : e.ignored = true) :
    Inv (s.skipped e) := by
  refine ⟨hinv.phase.fewer skipped_state (fun c => skipped_fewer he) ?_, fun hlive c => ?_,
    fun hlive => ?_, ?_, by simpa using hinv.freed⟩
  · cases e with
    | connectDone status => exact .inr ⟨by simp [skipped, deliver], hp⟩
    | writeDone c status =>
      exact .inl (by cases c <;> simp [skipped, deliver])
    | _ => simp [Event.ignored] at he
  · rw [(skipped_fewer he).closing]
    exact hinv.isOpen (by simpa using hlive) c
  · rw [(skipped_fewer he).timer]
    exact hinv.timer (by simpa using hlive)
  · have hreq := hinv.req
    cases e with
    | connectDone status => simpa [skipped, deliver] using hreq
    | writeDone c status => cases c <;> simpa [skipped, deliver] using hreq
    | _ => simp [Event.ignored] at he

theorem Turn.live (h : Turn ret s st u) (hlive : st.isAlmostDead = false) :
    s.state.isAlmostDead = false := by
  cases h with
  | kill _ hlive' => exact hlive'
  | finalizer hstate => simp [succ_isAlmostDead hstate] at hlive
  | greet hstate | selectAuth hstate | refuseAuth hstate | startRequest hstate
  | readRequest hstate | lookup _ hstate | address _ _ _ hstate | lookupFailed hstate
  | resolved _ _ hstate | success _ hstate | refused hstate | startProxy hstate
  | cycle _ _ hstate =>
    rw [hstate]
    rfl

theorem Inv.notClosing (hinv : Inv s) (hp : s.Pending e) (hlive : s.state.isAlmostDead = false)
    (c : Side) (h : Part) : e ≠ .closeDone c h := by
  rintro rfl
  simp [Session.Pending, hinv.isOpen hlive c h] at hp

theorem Inv.step (hinv : Inv s) (h : Step s (ret, e) t) : Inv t := by
  obtain ⟨hp, h⟩ := step_eq_some.mp h
  obtain ⟨hfreed, ⟨hignored, rfl⟩ | ⟨-, hacc, st, u, hturn, rfl⟩⟩ := onEvent_ok h
  · exact hinv.skipped hp hignored
  · obtain ⟨hphase, htimer⟩ := hinv.turn hp hacc hturn
    refine ⟨hphase, fun hlive => ?_, fun hlive => ?_, ?_, ?_⟩
    · intro c p
      rw [Session.enter_state] at hlive
      have hs : s.state.isAlmostDead = false := by simpa using hturn.live hlive
      rw [Session.enter_conn, hturn.closing hlive, received_closing (hinv.notClosing hp hs)]
      exact hinv.isOpen hs c p
    · simpa using htimer (by simpa using hlive)
    · simpa [hturn.req, received_req] using hinv.req
    · simp [Session.enter_freed, hturn.freed, hfreed]

theorem Inv.of_reachable (h : Transition.Reachable Init Step s) : Inv s :=
  h.invariant (fun _ => .of_init) fun _ _ _ _ hinv hstep => hinv.step hstep

/-! ### A concrete session -/

/-- The calls into libuv succeed; the local address is `10.10.10.10:1080`. -/
def Returns.ok : Returns where
  readStart _ := 0
  write _ := 0
  timerStart _ := 0
  getaddrinfo := 0
  connect := 0
  getsockname := 0
  sockname := .inet (fun _ => 10) 1080
  stale := .other 0

def start : Session := (fresh fun _ => ⟨[], .other 0⟩).reads .incoming

theorem init_start : Init start := ⟨.ok, fun _ => ⟨[], .other 0⟩, rfl⟩

theorem reachable_start : Transition.Reachable Init Step start := .init init_start

variable {es : List (Returns × Event)}

theorem reachable_of_run (h : es.foldlM step start = some s) :
    Transition.Reachable Init Step s :=
  .of_foldlM reachable_start h

theorem reachable_of_runIf {cond : Session → Returns → Event → Prop}
    [∀ s r e, Decidable (cond s r e)]
    (h : es.foldlM (fun s e => if cond s e.1 e.2 then step s e else none) start = some s) :
    Transition.Reachable Init (StepIf cond) s :=
  .of_foldlM_if (.init init_start) h

def greeting : List (Returns × Event) :=
  [(.ok, .readDone .incoming true 3 [5, 1, 0]), (.ok, .writeDone .incoming 0)]

/-- The client asks for `10.0.0.1:80`. -/
def askAddress : Returns × Event :=
  (.ok, .readDone .incoming true 10 [5, 1, 0, 1, 10, 0, 0, 1, 0, 80])

/-- The client asks for port 80 of the host `a`. -/
def askHost : Returns × Event :=
  (.ok, .readDone .incoming true 8 [5, 1, 0, 3, 1, 97, 0, 80])

end LibuvWorks.Socks5.Client
