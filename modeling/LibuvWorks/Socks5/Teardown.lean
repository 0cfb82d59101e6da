import LibuvWorks.Socks5.Phases

/-!
# The end of a session

`do_kill` closes four handles, and each callback that runs afterwards counts `cx->state` up by
one. `Counted` says when the count comes out right: then the session is freed once, after
the last callback that needs it.
-/
namespace LibuvWorks.Socks5.Client

open Function (update update_apply update_self)
open Transition
open Session (Pending deliver enter received skipped)

/-- A step does not close the session in state `s_req_lookup` without a lookup, or with a
lookup in another state, and `uv_close` cancels a connect that it finds. -/
def Counted (s : Session) (ret : Returns) : Event → Prop
  | .lookupDone status ai =>
    s.state = .reqLookup → status = 0 → canAccess ai = true → ret.connect = 0
  | .timerExpire _ status =>
    s.state = .kill → status = 0 → (s.conn .outgoing).req ≠ some .addrinfo
  | .writeDone _ status =>
    s.state = .kill → status ≠ ecanceled → (s.conn .outgoing).req ≠ some .addrinfo
  | .connectDone status => s.state.isAlmostDead = true → status = ecanceled
  | .readDone _ _ _ _ => True
  | .closeDone _ _ => True

instance (s : Session) (ret : Returns) (e : Event) : Decidable (Counted s ret e) :=
  match e with
  | .lookupDone _ _ => inferInstanceAs (Decidable (_ = _ → _ = _ → _ = _ → _ = _))
  | .timerExpire _ _ => inferInstanceAs (Decidable (_ = _ → _ = _ → _ ≠ _))
  | .writeDone _ _ => inferInstanceAs (Decidable (_ = _ → _ ≠ _ → _ ≠ _))
  | .connectDone _ => inferInstanceAs (Decidable (_ = _ → _ = _))
  | .readDone _ _ _ _ => inferInstanceAs (Decidable True)
  | .closeDone _ _ => inferInstanceAs (Decidable True)

/-- The callbacks that the session still waits for: of `uv_close`, and of a lookup. -/
def Session.finalizers (s : Session) : ℕ :=
  ((s.conn .incoming).closing .handle).toNat + ((s.conn .incoming).closing .timer).toNat +
    ((s.conn .outgoing).closing .handle).toNat + ((s.conn .outgoing).closing .timer).toNat +
    if (s.conn .outgoing).req = some .addrinfo then 1 else 0

/-- What the history says of the end of the session. -/
def Obs.ends : Obs → Bool
  | .closed _ _ => true
  | .free => true
  | _ => false

def Session.ended (s : Session) : List Obs := s.log.filter Obs.ends

variable {ret : Returns} {s t u : Session} {c : Side} {p : Part} {e : Event} {st : SessState}

theorem mem_ended : .closed c p ∈ s.ended ↔ .closed c p ∈ s.log := by
  simp [Session.ended, Obs.ends]

/-! ### Only the callbacks of `uv_close` and the end of `do_next` note the end -/

section Ended

attribute [local simp] Session.ended Obs.ends

theorem ConnectStart.ended (h : ConnectStart ret s st t) : t.ended = s.ended := by
  cases h <;> simp

theorem Cycle.ended {a b : Side} (h : Cycle ret a b s t) : t.ended = s.ended := by
  cases h <;> simp

theorem enter_ended :
    (s.enter st).ended = if st = .dead then .free :: s.ended else s.ended := by
  rw [Session.ended, Session.enter_log]
  split <;> rfl

theorem received_ended (ret : Returns) (he : ∀ c p, e ≠ .closeDone c p) :
    (s.received ret e).ended = s.ended := by
  cases e <;> simp [received] at he ⊢ <;> rfl

theorem skipped_ended : (s.skipped e).ended = s.ended := by
  cases e <;> simp [skipped]

end Ended

/-! ### The count -/

structure Tally (s : Session) : Prop where
  count : s.state.isAlmostDead = true →
    s.state.ctorIdx + s.finalizers = SessState.dead.ctorIdx
  closed : ∀ c p, .closed c p ∈ s.ended ↔
    s.state.isAlmostDead = true ∧ (s.conn c).closing p = false
  free : s.ended.countP (fun o => o matches .free) = if s.freed then 1 else 0
  drained : s.state.isAlmostDead = true → ∀ c, (s.conn c).closing .handle = false →
    (s.conn c).writes = [] ∧ (s.conn c).req ≠ some .connect

theorem Tally.of_init (h : Init s) : Tally s := by
  obtain ⟨ret, t, h⟩ := h
  obtain ⟨-, -, -, rfl⟩ := connRead_ok.mp h
  refine ⟨?_, ?_, ?_, ?_⟩ <;> simp [fresh, Session.ended, SessState.isAlmostDead]

theorem Phase.lookup (h : Phase s) (hreq : (s.conn .outgoing).req = some .addrinfo)
    (hlive : s.state.isAlmostDead = false) : s.state = .reqLookup ∨ s.state = .kill := by
  unfold Phase at h
  cases hs : s.state <;> rw [hs] at h hlive <;> simp_all [SessState.isAlmostDead]

theorem killed_finalizers :
    s.killed.finalizers = 4 + if (s.conn .outgoing).req = some .addrinfo then 1 else 0 := by
  simp [Session.finalizers]

theorem Tally.skipped (h : Tally s) (hp : s.Pending e) (he : e.ignored = true) :
    Tally (s.skipped e) := by
  have hfinalizers : (s.skipped e).finalizers = s.finalizers := by
    cases e with
    | connectDone status =>
      have hreq : (s.conn .outgoing).req = some .connect := hp
      simp [Session.finalizers, skipped, deliver, hreq]
    | writeDone c status =>
      cases c <;> simp [Session.finalizers, skipped, deliver]
    | _ => simp [Event.ignored] at he
  refine ⟨fun hdead => ?_, fun c p => ?_, ?_, fun hdead c hclosing => ?_⟩
  · rw [hfinalizers, skipped_state]
    exact h.count (by simpa using hdead)
  · rw [skipped_ended, (skipped_fewer he).closing, skipped_state]
    exact h.closed c p
  · rw [skipped_ended, skipped_freed]
    exact h.free
  · rw [(skipped_fewer he).closing] at hclosing
    obtain ⟨hwrites, hreq⟩ := h.drained (by simpa using hdead) c hclosing
    refine ⟨(skipped_fewer he).empty hwrites, ?_⟩
    cases e with
    | connectDone status => cases c <;> simp [skipped, deliver, hreq]
    | writeDone d status => cases c <;> cases d <;> simp [skipped, deliver, hreq]
    | _ => simp [Event.ignored] at he

theorem Inv.not_lookup (hinv : Inv s) (hcount : Counted s ret e) (hp : s.Pending e)
    (hignored : e.ignored = false) (hacc : s.Accepts e) (hlive : s.state.isAlmostDead = false)
    (hstate : s.state ≠ .reqLookup) :
    ((s.received ret e).conn .outgoing).req ≠ some .addrinfo := by
  by_cases hreq : (s.conn .outgoing).req = some .addrinfo
  · have hkill := (hinv.phase.lookup hreq hlive).resolve_left hstate
    have hphase := hinv.phase
    rw [Phase, hkill] at hphase
    cases e with
    | timerExpire c status => exact absurd hreq (hcount hkill hacc)
    | lookupDone status ai => simp [received, deliver]
    | connectDone status => simp [Pending, hreq] at hp
    | readDone c own nread data =>
      cases c
      · simp [Pending, hphase.1.reads] at hp
      · simp [Pending, hphase.2.reads] at hp
    | writeDone c status =>
      exact absurd hreq (hcount hkill (by simpa [Event.ignored] using hignored))
    | closeDone c p => exact absurd rfl (hinv.notClosing hp hlive c p)
  · exact received_lookup hreq

theorem Tally.killed {q : S5Ctx} (h : Tally s) (hlive : s.state.isAlmostDead = false)
    (hfreed : s.freed = false) (hended : u.ended = s.ended) (hu : u.freed = s.freed)
    (hstate : u.state = s.state)
    (hreq : (u.conn .outgoing).req = some .addrinfo ↔ s.state = .reqLookup) :
    Tally ((u.killed.setParser q).enter (killState u.state)) := by
  have hne : killState s.state ≠ .dead := by
    unfold killState
    split <;> simp
  rw [hstate]
  refine ⟨fun _ => ?_, fun c p => ?_, ?_, fun _ c hclosing => ?_⟩
  · have hfinalizers : ((u.killed.setParser q).enter (killState s.state)).finalizers =
        u.killed.finalizers := by simp [Session.finalizers]
    rw [hfinalizers, killed_finalizers]
    unfold killState
    split <;> simp_all <;> rfl
  · have hnone : .closed c p ∉ s.ended := by simp [h.closed, hlive]
    have hsame : (u.killed.setParser q).ended = s.ended := by
      rw [← hended]
      simp [Session.ended, Obs.ends]
    rw [enter_ended, if_neg hne, hsame]
    cases c <;> simp [hnone]
  · have hsame : (u.killed.setParser q).ended = s.ended := by
      rw [← hended]
      simp [Session.ended, Obs.ends]
    rw [enter_ended, if_neg hne, hsame, h.free, Session.enter_freed]
    simp [hu, hne, hfreed]
  · cases c <;> simp at hclosing

theorem Tally.connectFailed {a : SockAddr} (h : Tally s) (hlive : s.state.isAlmostDead = false)
    (hfreed : s.freed = false) (hended : u.ended = s.ended) (hu : u.freed = s.freed)
    (hstate : u.state = s.state)
    (hreq : (u.conn .outgoing).req = some .addrinfo ↔ s.state = .reqLookup) :
    Tally (((((u.note (.access a true)).setTimer .outgoing true).note
      (.connect a ret.connect)).killed).enter (killState u.state)) := by
  refine h.killed (u := ((u.note (.access a true)).setTimer .outgoing true).note
    (.connect a ret.connect)) (q := u.parser) hlive hfreed ?_ hu hstate ?_
  · rw [← hended]
    simp [Session.ended, Obs.ends]
  · simpa using hreq

theorem Tally.going (h : Tally s) (hlive : s.state.isAlmostDead = false)
    (hst : st.isAlmostDead = false) (hfreed : s.freed = false) (hended : u.ended = s.ended)
    (hu : u.freed = s.freed) : Tally (u.enter st) := by
  have hne : st ≠ .dead := by
    rintro rfl
    simp [SessState.isAlmostDead] at hst
  refine ⟨fun hdead => ?_, fun c p => ?_, ?_, fun hdead => ?_⟩
  · simp [hst] at hdead
  · rw [enter_ended, if_neg hne, hended]
    simp [h.closed, hlive, hst]
  · rw [enter_ended, if_neg hne, hended, h.free, Session.enter_freed]
    simp [hu, hne, hfreed]
  · simp [hst] at hdead

theorem received_same_req (hlookup : ∀ status ai, e ≠ .lookupDone status ai)
    (hconnect : ∀ status, e ≠ .connectDone status) :
    ((s.received ret e).conn c).req = (s.conn c).req := by
  cases e <;> simp [received, deliver, update_apply] at hlookup hconnect ⊢ <;>
    grind

theorem succ_ctorIdx (hdead : st.isAlmostDead = true) (hne : st ≠ .dead) :
    st.succ.ctorIdx = st.ctorIdx + 1 := by
  cases st <;> first | rfl | simp_all [SessState.isAlmostDead]

theorem Tally.counted (h : Tally s) (hdead : s.state.isAlmostDead = true) (hne : s.state ≠ .dead)
    (hone : u.finalizers + 1 = s.finalizers)
    (hclosed : ∀ c p, .closed c p ∈ u.ended ↔ (u.conn c).closing p = false)
    (hfree : u.ended.countP (fun o => o matches .free) = 0) (hu : u.freed = false)
    (hdrained : ∀ c, (u.conn c).closing .handle = false →
      (u.conn c).writes = [] ∧ (u.conn c).req ≠ some .connect) :
    Tally (u.enter s.state.succ) := by
  have hdead' := succ_isAlmostDead hdead
  refine ⟨fun _ => ?_, fun c p => ?_, ?_, fun _ c hclosing => ?_⟩
  · have hcount := h.count hdead
    have hfinalizers : (u.enter s.state.succ).finalizers = u.finalizers := by
      simp [Session.finalizers]
    rw [Session.enter_state, succ_ctorIdx hdead hne]
    omega
  · rw [enter_ended]
    split <;> simp [hclosed, hdead']
  · rw [enter_ended, Session.enter_freed]
    split <;> simp_all
  · rw [Session.enter_conn] at hclosing ⊢
    exact hdrained c hclosing

theorem Tally.finalizer (h : Tally s) (hinv : Inv s) (hcount : Counted s ret e)
    (hp : s.Pending e) (hignored : e.ignored = false) (hacc : s.Accepts e)
    (hfreed : s.freed = false) (hdead : s.state.isAlmostDead = true) :
    Tally ((s.received ret e).enter s.state.succ) := by
  have hclosed := hinv.phase.closed hdead
  have hne : s.state ≠ .dead := by
    intro habs
    simp [hinv.freed.mpr habs] at hfreed
  cases e with
  | timerExpire c status => simp [Pending, (hclosed c).timer] at hp
  | readDone c own nread data => simp [Pending, (hclosed c).reads] at hp
  | writeDone c status => simp [Session.Accepts, (hclosed c).wr] at hacc
  | connectDone status => simp [Event.ignored, hcount hdead] at hignored
  | lookupDone status ai =>
    have hended : (s.received ret (.lookupDone status ai)).ended = s.ended :=
      received_ended ret (by simp)
    refine h.counted hdead hne ?_ (fun c p => ?_) ?_ (by simpa using hfreed) fun c hclosing => ?_
    · simp [Session.finalizers, received, deliver, hp.1]
    · rw [hended, h.closed, received_closing (by simp)]
      simp [hdead]
    · simpa [hended, hfreed] using h.free
    · rw [received_closing (by simp)] at hclosing
      obtain ⟨hwrites, hreq⟩ := h.drained hdead c hclosing
      cases c
      · simpa [received, deliver] using ⟨hwrites, hreq⟩
      · simpa [received, deliver] using hwrites
  | closeDone c p =>
    have hclosing : (s.conn c).closing p = true := hp.1
    have hended : (s.received ret (.closeDone c p)).ended = .closed c p :: s.ended := rfl
    refine h.counted hdead hne ?_ (fun d q => ?_) ?_ (by simpa using hfreed) fun d hdone => ?_
    · cases c <;> cases p <;>
        simp [Session.finalizers, received, deliver, hclosing] <;> omega
    · rw [hended, List.mem_cons, h.closed]
      cases c <;> cases d <;> cases p <;> cases q <;>
        simp [received, deliver, hdead]
    · simpa [hended, hfreed] using h.free
    · by_cases hd : d = c ∧ p = .handle
      · obtain ⟨rfl, rfl⟩ := hd
        simpa [received, deliver] using hp.2 rfl
      · have hold : (s.conn d).closing .handle = false := by
          cases c <;> cases d <;> cases p <;>
            simp [received, deliver] at hd hdone ⊢ <;> exact hdone
        have := h.drained hdead d hold
        cases c <;> cases d <;> simpa [received, deliver] using this

theorem Tally.turn (h : Tally s) (hinv : Inv s) (hcount : Counted s ret e) (hp : s.Pending e)
    (hignored : e.ignored = false) (hacc : s.Accepts e) (hfreed : s.freed = false)
    (hturn : Turn ret (s.received ret e) st u) : Tally (u.enter st) := by
  by_cases hdead : s.state.isAlmostDead = true
  · cases hturn with
    | finalizer =>
      rw [Session.received_state]
      exact h.finalizer hinv hcount hp hignored hacc hfreed hdead
    | kill _ hlive => simp [hdead] at hlive
    | greet hstate | selectAuth hstate | refuseAuth hstate | startRequest hstate
    | readRequest hstate | lookup _ hstate | address _ _ _ hstate | lookupFailed hstate
    | resolved _ _ hstate | success _ hstate | refused hstate | startProxy hstate
    | cycle _ _ hstate =>
      rw [Session.received_state] at hstate
      simp [hstate, SessState.isAlmostDead] at hdead
  · have hlive : s.state.isAlmostDead = false := by simpa using hdead
    have hended : (s.received ret e).ended = s.ended :=
      received_ended ret (hinv.notClosing hp hlive)
    cases hturn with
    | kill q _ hstate =>
      rw [Session.received_state] at hstate
      apply h.killed hlive hfreed hended received_freed Session.received_state
      simp [hstate, hinv.not_lookup hcount hp hignored hacc hlive hstate]
    | address q st t hstate hgot _ hstart =>
      have hs := hstate
      rw [Session.received_state] at hs
      have hreq : ((s.received ret e).conn .outgoing).req ≠ some .addrinfo :=
        hinv.not_lookup hcount hp hignored hacc hlive (by simp [hs])
      have hfreed' : u.freed = s.freed := by simpa using hstart.freed
      have hended' : u.ended = s.ended := by
        rw [hstart.ended, ← hended]
        simp [Session.ended, Obs.ends]
      cases hstart with
      | denied | connecting => exact h.going hlive rfl hfreed hended' hfreed'
      | failed =>
        refine h.connectFailed hlive hfreed ?_ (by simp) (by simp) (by simp [hs, hreq])
        rw [← hended]
        simp [Session.ended, Obs.ends]
    | resolved st t hstate hstop hres hstart =>
      have hs := hstate
      rw [Session.received_state] at hs
      have hfreed' : u.freed = s.freed := by simpa using hstart.freed
      have hended' : u.ended = s.ended := hstart.ended.trans hended
      cases hstart with
      | denied | connecting => exact h.going hlive rfl hfreed hended' hfreed'
      | failed hyes hret =>
        -- The lookup is outstanding: `Counted` rules out that it has just been done.
        have hphase := hinv.phase
        rw [Phase, hs] at hphase
        have hsame : ((s.received ret e).conn .outgoing).req = some .addrinfo := by
          rw [received_same_req, hphase.2.2.1]
          · rintro status ai rfl
            have hzero : status = 0 := by
              have hle := hp.2
              simp [received] at hres
              omega
            simp only [Session.setScratch_conn, update_self, canAccess_setPort] at hyes
            simp [received, hzero] at hyes
            exact hret (hcount hs hzero hyes)
          · rintro status rfl
            simp [Pending, hphase.2.2.1] at hp
        exact h.connectFailed hlive hfreed hended (by simp) (by simp) (by simp [hs, hsame])
    | finalizer habs => simp [hlive] at habs
    | cycle v t hstate _ hin hout =>
      apply h.going hlive rfl hfreed
      · rw [hout.ended, hin.ended, hended]
      · rw [hout.freed, hin.freed, received_freed]
    | _ =>
      refine h.going hlive rfl hfreed ?_ (by simp)
      rw [← hended]
      simp [Session.ended, Obs.ends]

theorem Tally.of_reachable (h : Reachable Init (StepIf Counted) s) : Tally s := by
  apply h.invariant (fun _ => .of_init)
  rintro s ⟨ret, e⟩ t hreach h ⟨hcount, hstep⟩
  have hinv : Inv s := .of_reachable (hreach.mono fun _ _ _ hst => hst.2)
  obtain ⟨hp, hev⟩ := step_eq_some.mp hstep
  obtain ⟨hfreed, ⟨hignored, rfl⟩ | ⟨hignored, hacc, st, u, hturn, rfl⟩⟩ := onEvent_ok hev
  · exact h.skipped hp hignored
  · exact h.turn hinv hcount hp hignored hacc hfreed hturn

theorem Tally.freed_iff (h : Tally s) (hinv : Inv s) :
    s.freed = true ↔ s.state.isAlmostDead = true ∧ s.finalizers = 0 := by
  rw [hinv.freed]
  refine ⟨fun hstate => ?_, fun ⟨hdead, hzero⟩ => ?_⟩
  · have hcount := h.count (by rw [hstate]; rfl)
    rw [hstate] at hcount ⊢
    exact ⟨rfl, by omega⟩
  · have hcount := h.count hdead
    rw [hzero] at hcount
    cases hs : s.state <;> rw [hs] at hcount <;> first | rfl | cases hcount

theorem finalizers_eq_zero : s.finalizers = 0 ↔
    (∀ c p, (s.conn c).closing p = false) ∧ (s.conn .outgoing).req ≠ some .addrinfo := by
  have hpart : ∀ f : Part → Bool, (∀ p, f p = false) ↔ f .handle = false ∧ f .timer = false :=
    fun f => ⟨fun h => ⟨h _, h _⟩, fun h p => by cases p <;> simp [h]⟩
  rw [Session.finalizers, Side.forall]
  split <;> simp_all [and_assoc]

theorem Tally.exists_pending (h : Tally s) (hinv : Inv s) (hfreed : s.freed = false) :
    ∃ e, s.Pending e := by
  by_cases hlive : s.state.isAlmostDead = false
  · exact ⟨.timerExpire .incoming 0, hinv.timer hlive⟩
  · have hsome : s.finalizers ≠ 0 := by
      intro hzero
      have := (h.freed_iff hinv).mpr ⟨by simpa using hlive, hzero⟩
      simp [hfreed] at this
    by_cases hreq : (s.conn .outgoing).req = some .addrinfo
    · exact ⟨.lookupDone 0 (.other 0), hreq, le_rfl⟩
    · obtain ⟨c, p, hclosing⟩ : ∃ c p, (s.conn c).closing p = true := by
        by_contra hnone
        exact hsome (finalizers_eq_zero.mpr ⟨by simpa using hnone, hreq⟩)
      -- The requests of the handle come before its `uv_close` callback.
      by_cases hwrites : (s.conn c).writes = []
      · by_cases hconnect : (s.conn c).req = some .connect
        · cases c
          · simp [hinv.req] at hconnect
          · exact ⟨.connectDone ecanceled, hconnect⟩
        · exact ⟨.closeDone c p, hclosing, fun _ => ⟨hwrites, hconnect⟩⟩
      · exact ⟨.writeDone c ecanceled, hwrites⟩

theorem not_pending (htimer : ∀ c, (s.conn c).timer = false) (hreads : ∀ c, (s.conn c).reads = 0)
    (hwrites : ∀ c, (s.conn c).writes = []) (hreq : (s.conn .outgoing).req = none)
    (hclosing : ∀ c p, (s.conn c).closing p = false) (e : Event) : ¬ s.Pending e := by
  cases e <;> simp [Pending, htimer, hreads, hwrites, hreq, hclosing]

/-- The client goes away before it has said anything. -/
def hangUp : List (Returns × Event) :=
  [(.ok, .readDone .incoming true (-4095) []), (.ok, .closeDone .incoming .handle),
    (.ok, .closeDone .incoming .timer), (.ok, .closeDone .outgoing .handle),
    (.ok, .closeDone .outgoing .timer)]

/-- A host whose address cannot be connected to: `uv_tcp_connect` returns `-ENETUNREACH`. -/
def unreachableHost : List (Returns × Event) :=
  greeting ++ [askHost, ({ Returns.ok with connect := -101 },
      .lookupDone 0 (.inet6 (fun _ => 1) 0 0 0)),
    (.ok, .closeDone .incoming .handle), (.ok, .closeDone .incoming .timer),
    (.ok, .closeDone .outgoing .handle), (.ok, .closeDone .outgoing .timer)]

end LibuvWorks.Socks5.Client
