import LibuvWorks.Socks5.Requests

/-!
# The success reply

The client is told of success, and the session starts to proxy, after the connection it has
asked for has been made, unless its timer expires while the session still connects.
-/
namespace LibuvWorks.Socks5.Client

open Session (deliver enter_log enter_state received skipped)
open Function (update update_apply update_self)
open Transition History

/-- A connect to the address that has been asked for has been completed with status `0`. -/
inductive Connected : List Obs → Prop
  | intro (newer older : List Obs) (a : SockAddr) (hasked : Asked a older) :
    Connected (newer ++ .connected 0 :: .connect a 0 :: older)

/-- The success reply, and the start of the proxy phase, come after the connect. -/
def AfterConnect : Obs → List Obs → Prop
  | .write .incoming data, older => [5, 0, 0] <+: data → Connected older
  | .proxy, older => Connected older
  | _, _ => True

def Waits (s : Session) (_ : Returns) : Event → Prop
  | .timerExpire c status => c = .incoming → status = 0 → s.state ≠ .reqConnect
  | _ => True

instance (s : Session) (ret : Returns) (e : Event) : Decidable (Waits s ret e) :=
  match e with
  | .timerExpire _ _ => inferInstanceAs (Decidable (_ = _ → _ = _ → _ ≠ _))
  | .lookupDone _ _ | .connectDone _ | .readDone _ _ _ _ | .writeDone _ _ | .closeDone _ _ =>
    inferInstanceAs (Decidable True)

variable {ret : Returns} {s t u : Session} {c a b : Side} {e : Event} {st : SessState}
  {o : Obs} {log : List Obs}

theorem Connected.cons (h : Connected log) : Connected (o :: log) := by
  obtain ⟨newer, older, a, hasked⟩ := h
  exact .intro (o :: newer) older a hasked

theorem Connected.any (h : Connected log) : log.any (fun o => o matches .connected _) = true := by
  obtain ⟨newer, older, a, -⟩ := h
  simp

structure Granted (s : Session) : Prop where
  log : Justified AfterConnect s.log
  connecting : s.state = .reqConnect → (s.conn .outgoing).req = some .connect →
    ∃ a older, s.log = .connect a 0 :: older ∧ Asked a older
  connected : s.state = .proxyStart ∨ s.state = .proxy → Connected s.log

/-! ### What is noted without a reply -/

section After

attribute [local simp] AfterConnect

theorem received_after (h : Justified AfterConnect s.log) :
    Justified AfterConnect (s.received ret e).log := by
  cases e <;> simpa [received] using h

theorem received_connected (h : Connected s.log) : Connected (s.received ret e).log := by
  cases e <;> simp [received, h, h.cons]

theorem enter_after (h : Justified AfterConnect u.log) :
    Justified AfterConnect (u.enter st).log := by
  rw [enter_log]
  split
  · simpa using h
  · exact h

theorem ConnectStart.after (h : ConnectStart ret s st t) (hs : Justified AfterConnect s.log) :
    Justified AfterConnect t.log := by
  cases h <;> simpa using hs

theorem Cycle.after (h : Cycle ret a b s t) (hs : Justified AfterConnect s.log)
    (hconnected : Connected s.log) : Justified AfterConnect t.log := by
  cases h with
  | write => cases a <;> simp [hs, hconnected]
  | _ => simpa using hs

theorem Cycle.connected (h : Cycle ret a b s t) (hs : Connected s.log) : Connected t.log := by
  cases h <;> simp [hs, hs.cons]

theorem Turn.after (h : Turn ret s st u) (hs : Justified AfterConnect s.log)
    (hconnect : s.state = .reqConnect → (s.conn .outgoing).result = 0 → Connected s.log)
    (hconnected : s.state = .proxyStart ∨ s.state = .proxy → Connected s.log) :
    Justified AfterConnect u.log := by
  cases h with
  | address _ _ _ _ _ _ hstart | resolved _ _ _ _ _ hstart => exact hstart.after (by simpa using hs)
  | success reply hstate _ hres => simp [hs, hconnect hstate hres]
  | startProxy hstate => simp [hs, hconnected (.inl hstate)]
  | cycle v _ hstate _ hin hout =>
    have hlog := hconnected (.inr hstate)
    exact hout.after (hin.after hs hlog) (hin.connected hlog)
  | _ => simpa using hs

end After

/-! ### The step -/

theorem ConnectStart.connecting_log (h : ConnectStart ret s st t) (hst : st = .reqConnect)
    (hasked : canAccess (s.conn .outgoing).t.addr = true → (s.conn .outgoing).req = none →
      Asked (s.conn .outgoing).t.addr (.access (s.conn .outgoing).t.addr true :: s.log)) :
    ∃ a older, t.log = .connect a 0 :: older ∧ Asked a older := by
  cases h with
  | denied => cases hst
  | connecting hyes _ hnone => exact ⟨_, _, by simp, hasked hyes hnone⟩
  | failed => exact absurd hst (killState_ne rfl)

theorem ConnectStart.not_proxying (h : ConnectStart ret s st t) :
    ¬(st = .proxyStart ∨ st = .proxy) := by
  cases h with
  | failed => exact not_or.mpr ⟨killState_ne rfl, killState_ne rfl⟩
  | _ => simp

theorem succ_ne {st' : SessState} (hdead : st.isAlmostDead = true)
    (hlive : st'.isAlmostDead = false) : st.succ ≠ st' := by
  rintro rfl
  simp [succ_isAlmostDead hdead] at hlive

theorem Looking.done_of_req (h : Looking s) (hinv : Inv s) (hp : s.Pending e)
    (hacc : s.Accepts e) (hstate : s.state = .reqLookup)
    (hnone : ((s.received ret e).conn .outgoing).req = none) :
    LookupDone (s.received ret e) := by
  refine h.done hinv hp hacc ?_ hstate
  have hphase := hinv.phase
  rw [Phase, hstate] at hphase
  cases e with
  | timerExpire c status =>
    cases c <;> simp [received, deliver, hphase.2.2.1] at hnone
  | _ => trivial

theorem Turn.connecting_log (h : Turn ret (s.received ret e) st u) (hst : st = .reqConnect)
    (hlook : Looking s) (hinv : Inv s) (hp : s.Pending e) (hacc : s.Accepts e) :
    ∃ a older, u.log = .connect a 0 :: older ∧ Asked a older := by
  cases h with
  | address p st t hstate hgot hatyp hstart =>
    refine hstart.connecting_log hst fun _ _ => ?_
    simpa using Asked.address p (s.received ret e).log hatyp rfl
  | resolved st t hstate hstop hres hstart =>
    apply hstart.connecting_log hst
    intro hyes hnone
    rw [Session.received_state] at hstate
    simp only [Session.setScratch_conn, update_self, canAccess_setPort] at hyes hnone
    simpa using hlook.done_of_req hinv hp hacc hstate hnone hres hyes
  | kill => exact absurd hst (killState_ne rfl)
  | finalizer hdead => exact absurd hst (succ_ne hdead rfl)
  | _ => cases hst

/-- With `Waits`, the session goes on from `s_req_connect` when the connect is done. -/
theorem Granted.connect_done (h : Granted s) (hinv : Inv s) (hp : s.Pending e)
    (hacc : s.Accepts e) (hwaits : Waits s ret e) (hstate : s.state = .reqConnect)
    (hres : ((s.received ret e).conn .outgoing).result = 0) :
    Connected (s.received ret e).log := by
  have hclose := hinv.notClosing hp (by rw [hstate]; rfl)
  have hphase := hinv.phase
  rw [Phase, hstate] at hphase
  obtain ⟨hin, hout, hreq, -⟩ := hphase
  cases e with
  | timerExpire c status =>
    cases c
    · exact absurd hstate (hwaits rfl hacc)
    · simp [received, etimedout] at hres
  | lookupDone status ai => exact absurd hp.1 hreq
  | connectDone status =>
    obtain ⟨a, older, hlog, hasked⟩ := h.connecting hstate hp
    have hzero : status = 0 := by simpa [received] using hres
    simpa [received, hlog, hzero] using Connected.intro [] older a hasked
  | readDone c own nread data => cases c <;> simp [Session.Pending, hin.reads, hout.reads] at hp
  | writeDone c status => cases c <;> simp [Session.Pending, hin.writes, hout.writes] at hp
  | closeDone c p => exact absurd rfl (hclose c p)

theorem Turn.connected (h : Turn ret s st u) (hst : st = .proxyStart ∨ st = .proxy)
    (hconnect : s.state = .reqConnect → (s.conn .outgoing).result = 0 → Connected s.log)
    (hconnected : s.state = .proxyStart ∨ s.state = .proxy → Connected s.log) :
    Connected u.log := by
  cases h with
  | success reply hstate _ hres => simpa using (hconnect hstate hres).cons
  | startProxy hstate => simpa using (hconnected (.inl hstate)).cons
  | cycle v _ hstate _ hin hout => exact hout.connected (hin.connected (hconnected (.inr hstate)))
  | kill => exact absurd hst (not_or.mpr ⟨killState_ne rfl, killState_ne rfl⟩)
  | finalizer hdead => exact absurd hst (not_or.mpr ⟨succ_ne hdead rfl, succ_ne hdead rfl⟩)
  | address _ _ _ _ _ _ hstart | resolved _ _ _ _ _ hstart => exact absurd hst hstart.not_proxying
  | _ => simp at hst

theorem Granted.skipped (h : Granted s) (hignored : e.ignored = true) : Granted (s.skipped e) := by
  obtain ⟨hlog, hconnecting, hconnected⟩ := h
  cases e with
  | connectDone status =>
    refine ⟨by simpa [skipped, AfterConnect] using hlog, fun _ hreq => ?_, fun hst => ?_⟩
    · simp [skipped, deliver] at hreq
    · simpa [skipped] using (hconnected hst).cons
  | writeDone c status =>
    refine ⟨hlog, fun hst hreq => hconnecting hst ?_, hconnected⟩
    cases c <;> simpa [skipped, deliver] using hreq
  | _ => simp [Event.ignored] at hignored

theorem Granted.step (h : Granted s) (hreach : Reachable Init Step s)
    (hwaits : Waits s ret e) (hstep : Step s (ret, e) t) : Granted t := by
  have hinv := Inv.of_reachable hreach
  have hlook := Looking.of_reachable hreach
  obtain ⟨hp, hev⟩ := step_eq_some.mp hstep
  obtain ⟨-, ⟨hignored, rfl⟩ | ⟨-, hacc, st, u, hturn, rfl⟩⟩ := onEvent_ok hev
  · exact h.skipped hignored
  · have hconnect : (s.received ret e).state = .reqConnect →
        ((s.received ret e).conn .outgoing).result = 0 → Connected (s.received ret e).log := by
      simpa using h.connect_done hinv hp hacc hwaits
    have hconnected : (s.received ret e).state = .proxyStart ∨
        (s.received ret e).state = .proxy → Connected (s.received ret e).log := by
      simpa using fun hstate => received_connected (h.connected hstate)
    refine ⟨enter_after (hturn.after (received_after h.log) hconnect hconnected),
      fun hst _ => ?_, fun hst => ?_⟩
    · rw [enter_state] at hst
      obtain ⟨a, older, hlog, hasked⟩ := hturn.connecting_log hst hlook hinv hp hacc
      exact ⟨a, older, by simp [enter_log, hst, hlog], hasked⟩
    · rw [enter_state] at hst
      have hne : st ≠ .dead := by
        rintro rfl
        simp at hst
      rw [enter_log, if_neg hne]
      exact hturn.connected hst hconnect hconnected

theorem Granted.of_reachable (h : Reachable Init (StepIf Waits) s) : Granted s := by
  apply h.invariant
  · rintro s ⟨ret, t, h⟩
    obtain ⟨-, -, -, rfl⟩ := connRead_ok.mp h
    refine ⟨?_, ?_, ?_⟩ <;> simp [fresh]
  · rintro s ⟨ret, e⟩ t hreach hs ⟨hwaits, hstep⟩
    exact hs.step (hreach.mono fun _ _ _ hst => hst.2) hwaits hstep

end LibuvWorks.Socks5.Client
