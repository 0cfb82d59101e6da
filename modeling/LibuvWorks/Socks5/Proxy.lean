import LibuvWorks.Socks5.Phases

/-!
# The proxy phase

What is handed to `conn_write` for one side is a prefix of what was read from the other side,
and no buffer is read into while it is being written.
-/
namespace LibuvWorks.Socks5.Client

open Function (update update_apply)
open Transition

/-- The bytes handed to `conn_write` for `c` since `do_proxy_start`. -/
def handed (c : Side) : List Obs → List UInt8
  | [] => []
  | .proxy :: _ => []
  | .write d data :: log => handed c log ++ if d = c then data else []
  | _ :: log => handed c log

/-- The bytes read from `c` since `do_proxy_start`. -/
def got (c : Side) : List Obs → List UInt8
  | [] => []
  | .proxy :: _ => []
  | .read d data :: log => got c log ++ if d = c then data else []
  | _ :: log => got c log

variable {ret : Returns} {s t u : Session} {a b c d : Side} {e : Event} {st : SessState}
  {log : List Obs} {data : List UInt8}

@[simp] theorem handed_read : handed c (.read d data :: log) = handed c log := rfl

@[simp] theorem handed_write :
    handed c (.write d data :: log) = handed c log ++ if d = c then data else [] := rfl

@[simp] theorem got_read :
    got c (.read d data :: log) = got c log ++ if d = c then data else [] := rfl

@[simp] theorem got_write : got c (.write d data :: log) = got c log := rfl

theorem Flow.cycle_log (h : Flow (s.conn a) (s.conn b)) (hcycle : Cycle ret a b s t) :
    (s.conn b).rdstate ≠ .done ∧ t.log = s.log ∨
      (s.conn b).rdstate = .done ∧
        t.log = .write a ((s.conn b).t.buf.take (s.conn b).result.toNat) :: s.log := by
  cases hcycle with
  | writing hwr hdone =>
    cases h with
    | writing _ _ hrd => exact .inl ⟨by simp [hrd], rfl⟩
    | reading hstop | read hstop => exact absurd hstop hwr
    | written hwritten => exact absurd hwritten hdone
  | read _ hrd => exact .inl ⟨by simp [hrd], by simp⟩
  | write _ hrd => exact .inr ⟨hrd, by simp⟩
  | wait _ _ hdone => exact .inl ⟨hdone, by simp⟩

theorem Cycle.buf (hcycle : Cycle ret a b s t) : (t.conn c).t = (s.conn c).t := by
  cases hcycle <;> simp [update_apply] <;> grind

theorem Piping.received_done (h : Piping (s.conn a) (s.conn b)) :
    ((s.received ret e).conn b).rdstate = .done ↔
      ∃ own nread data, e = .readDone b own nread data := by
  refine ⟨fun hdone => ?_, ?_⟩
  · have hne : ((s.received ret e).conn b).rdstate ≠ (s.conn b).rdstate := by
      rw [hdone]
      cases h with
      | reading _ _ hrd | writing _ _ hrd => simp [hrd]
    exact received_rd hne
  · rintro ⟨own, nread, data, rfl⟩
    simp [Session.received]

structure InOrder (s : Session) : Prop where
  started : .proxy ∈ s.log → ∀ c, handed c.other s.log <+: got c s.log
  proxying : s.state = .proxy → ∀ c, handed c.other s.log = got c s.log
  before : s.state.isAlmostDead = false → s.state ≠ .proxy → .proxy ∉ s.log

theorem proxy_mem_received : Obs.proxy ∈ (s.received ret e).log ↔ .proxy ∈ s.log := by
  cases e <;> simp [Session.received]

theorem handed_received : handed c (s.received ret e).log = handed c s.log := by
  cases e <;> simp [Session.received, handed]

theorem got_received (he : ∀ own nread data, e ≠ .readDone c own nread data) :
    got c (s.received ret e).log = got c s.log := by
  cases e <;> simp [Session.received, got] at he ⊢
  grind

theorem prefix_received (ret : Returns) (c : Side) :
    got c s.log <+: got c (s.received ret e).log := by
  by_cases he : ∃ own nread data, e = .readDone c own nread data
  · obtain ⟨own, nread, data, rfl⟩ := he
    simp [Session.received]
  · rw [got_received (by simpa using he)]

theorem received_data {own : Bool} {nread : ℤ}
    (hp : s.Pending (.readDone c own nread data)) (hres : 0 ≤ nread) :
    ((s.received ret (.readDone c own nread data)).conn c).t.buf.take
      ((s.received ret (.readDone c own nread data)).conn c).result.toNat = data := by
  obtain ⟨-, -, ⟨hlength, -⟩ | ⟨hneg, -⟩⟩ := hp
  · simp [Session.received, hlength]
  · omega

theorem InOrder.cycle (h : InOrder s) (hinv : Inv s) (hp : s.Pending e) (hacc : s.Accepts e)
    (hstate : s.state = .proxy) (hres : ∀ c, 0 ≤ ((s.received ret e).conn c).result)
    (hin : Cycle ret .incoming .outgoing (s.received ret e) u)
    (hout : Cycle ret .outgoing .incoming u t) (c : Side) :
    handed c.other t.log = got c t.log := by
  have hold := h.proxying hstate
  have hphase := hinv.phase
  rw [Phase, hstate] at hphase
  obtain ⟨hpin, hpout, -, -⟩ := hphase
  obtain ⟨hwr, hwrites, hrd, hreads⟩ := hin.other (by decide)
  have hlogin := (hpin.received ret hp hacc).cycle_log hin
  have hlogout := ((hpout.received ret hp hacc).congr hwr hwrites hrd hreads).cycle_log
    hout
  rw [hrd, hin.buf, hin.result] at hlogout
  rw [Ne, hpin.received_done] at hlogin
  rw [Ne, hpout.received_done] at hlogout
  obtain ⟨hnoout, hlogu⟩ | ⟨⟨own, nread, data, rfl⟩, hlogu⟩ := hlogin <;>
    obtain ⟨hnoin, hlogt⟩ | ⟨⟨own', nread', data', he⟩, hlogt⟩ := hlogout
  · rw [hlogt, hlogu, handed_received, got_received, hold]
    cases c
    · simpa using hnoin
    · simpa using hnoout
  · -- The client has been read, and upstream is written to.
    subst he
    rw [received_data hp (by simpa [Session.received] using hres .incoming)] at hlogt
    rw [hlogt, hlogu]
    have := hold c
    cases c <;> simpa [Session.received, Side.other] using this
  · rw [received_data hp (by simpa [Session.received] using hres .outgoing)] at hlogu
    rw [hlogt, hlogu]
    have := hold c
    cases c <;> simpa [Session.received, Side.other] using this
  · simp at he

theorem ConnectStart.proxy_mem (h : ConnectStart ret s st t) :
    st ≠ .proxy ∧ (Obs.proxy ∈ t.log ↔ .proxy ∈ s.log) := by
  cases h with
  | failed => exact ⟨killState_ne rfl, by simp⟩
  | _ => exact ⟨by simp, by simp⟩

theorem proxy_mem_enter : Obs.proxy ∈ (s.enter st).log ↔ .proxy ∈ s.log := by
  rw [Session.enter_log]
  split <;> simp

theorem handed_enter : handed c (s.enter st).log = handed c s.log := by
  rw [Session.enter_log]
  split <;> simp [handed]

theorem got_enter : got c (s.enter st).log = got c s.log := by
  rw [Session.enter_log]
  split <;> simp [got]

theorem InOrder.turn (h : InOrder s) (hinv : Inv s) (hp : s.Pending e) (hacc : s.Accepts e)
    (hturn : Turn ret (s.received ret e) st u) : InOrder (u.enter st) := by
  -- Before the proxy phase nothing is noted of it.
  have hquiet : s.state.isAlmostDead = false → s.state ≠ .proxy → st ≠ .proxy →
      (Obs.proxy ∈ u.log ↔ .proxy ∈ (s.received ret e).log) → InOrder (u.enter st) := by
    intro hlive hstate hst hmem
    have hno : Obs.proxy ∉ (u.enter st).log := by
      rw [proxy_mem_enter, hmem, proxy_mem_received]
      exact h.before hlive hstate
    exact ⟨fun hproxy => absurd hproxy hno, fun hproxy => absurd (by simpa using hproxy) hst,
      fun _ _ => hno⟩
  cases hturn with
  | kill p hlive =>
    rw [Session.received_state] at hlive
    refine ⟨fun hproxy c => ?_, fun hproxy => ?_, fun habs => ?_⟩
    · have hmem : Obs.proxy ∈ s.log := by
        simpa [proxy_mem_enter, proxy_mem_received] using hproxy
      have hstate : s.state = .proxy := by
        by_contra hne
        exact h.before hlive hne hmem
      have := h.proxying hstate c
      simpa [handed_enter, got_enter, handed, got, handed_received, this] using
        prefix_received ret c
    · exact absurd (by simpa using hproxy) (killState_ne (by rfl))
    · simp [killState_isAlmostDead] at habs
  | startProxy hstate hwrote hres =>
    refine ⟨fun _ c => ?_, fun _ c => ?_, fun _ hne => absurd (Session.enter_state) hne⟩
    · simp [handed_enter, handed]
    · simp [handed_enter, got_enter, handed, got]
  | cycle v t hstate hres hin hout =>
    rw [Session.received_state] at hstate
    have heq := h.cycle hinv hp hacc hstate hres hin hout
    refine ⟨fun _ c => ?_, fun _ c => ?_, fun _ hne => absurd (Session.enter_state) hne⟩
    · rw [handed_enter, got_enter, heq]
    · rw [handed_enter, got_enter, heq]
  | finalizer hdead =>
    rw [Session.received_state] at hdead ⊢
    have hdead' := succ_isAlmostDead hdead
    refine ⟨fun hproxy c => ?_, fun hproxy => ?_, fun habs => ?_⟩
    · have hmem : Obs.proxy ∈ s.log := by
        simpa [proxy_mem_enter, proxy_mem_received] using hproxy
      rw [handed_enter, got_enter, handed_received]
      exact (h.started hmem c).trans (prefix_received ret c)
    · rw [Session.enter_state] at hproxy
      simp [hproxy, SessState.isAlmostDead] at hdead'
    · simp [hdead'] at habs
  | address p st t hstate _ _ hstart | resolved st t hstate _ _ hstart =>
    rw [Session.received_state] at hstate
    apply hquiet (by rw [hstate]; rfl) (by rw [hstate]; simp) hstart.proxy_mem.1
    rw [hstart.proxy_mem.2]
    simp
  | greet hstate | selectAuth hstate | refuseAuth hstate | startRequest hstate
  | readRequest hstate | lookup _ hstate | lookupFailed hstate | success _ hstate
  | refused hstate =>
    rw [Session.received_state] at hstate
    exact hquiet (by rw [hstate]; rfl) (by rw [hstate]; simp) (by simp) (by simp)

theorem InOrder.of_reachable (h : Reachable Init Step s) : InOrder s := by
  apply h.invariant
  · rintro s ⟨ret, t, h⟩
    obtain ⟨-, -, -, rfl⟩ := connRead_ok.mp h
    refine ⟨?_, ?_, ?_⟩ <;> simp [fresh]
  · rintro s ⟨ret, e⟩ t hreach h hstep
    have hinv := Inv.of_reachable hreach
    obtain ⟨hp, hev⟩ := step_eq_some.mp hstep
    obtain ⟨-, ⟨hignored, rfl⟩ | ⟨-, hacc, st, u, hturn, rfl⟩⟩ := onEvent_ok hev
    · have hmem : Obs.proxy ∈ (s.skipped e).log ↔ .proxy ∈ s.log := by
        cases e <;> simp [Session.skipped]
      have hlog : ∀ c, handed c (s.skipped e).log = handed c s.log ∧
          got c (s.skipped e).log = got c s.log := by
        cases e <;> simp [Session.skipped, handed, got]
      refine ⟨fun hproxy c => ?_, fun hproxy c => ?_, fun hlive hne => ?_⟩
      · rw [(hlog _).1, (hlog _).2]
        exact h.started (hmem.mp hproxy) c
      · rw [(hlog _).1, (hlog _).2]
        exact h.proxying (by simpa using hproxy) c
      · rw [hmem]
        exact h.before (by simpa using hlive) (by simpa using hne)
    · exact h.turn hinv hp hacc hturn

/-- In every session that has started to proxy, under every order of the events, the bytes
handed to `conn_write` for a side are a prefix of the bytes read from the other side, a
connection has at most one read and one write in flight, and no buffer is read into while a
write of it to the other side is in flight. -/
theorem proxied_in_order (h : Reachable Init Step s) (hproxy : .proxy ∈ s.log) (c : Side) :
    handed c.other s.log <+: got c s.log ∧
      (s.conn c).reads ≤ 1 ∧ (s.conn c).writes.length ≤ 1 ∧
      (0 < (s.conn c).reads → ∀ w ∈ (s.conn c.other).writes, w.src ≠ some c) := by
  have hphase := (Inv.of_reachable h).phase
  refine ⟨(InOrder.of_reachable h).started hproxy c, ?_, hphase.writes, fun hreads => ?_⟩
  · by_contra hmany
    have := (hphase.reading (c := c) (by omega)).1
    omega
  · simp [(hphase.reading hreads).2]

theorem proxied_in_order_run :
    ∃ s, (greeting ++ [askAddress, (.ok, .connectDone 0), (.ok, .writeDone .incoming 0),
        (.ok, .readDone .incoming true 1 [7])]).foldlM step start = some s ∧
      (s.conn .outgoing).writes = [⟨some .incoming, [7]⟩] ∧
      handed Side.incoming.other s.log <+: got .incoming s.log ∧
      (s.conn .incoming).reads ≤ 1 ∧ (s.conn .incoming).writes.length ≤ 1 ∧
      (0 < (s.conn .incoming).reads →
        ∀ w ∈ (s.conn Side.incoming.other).writes, w.src ≠ some .incoming) := by
  have hsome : ((greeting ++ [askAddress, (.ok, .connectDone 0), (.ok, .writeDone .incoming 0),
      (.ok, .readDone .incoming true 1 [7])]).foldlM step start).isSome = true := by rfl
  refine ⟨_, (Option.some_get hsome).symm, by rfl, proxied_in_order
    (reachable_of_run (Option.some_get hsome).symm) ?_ .incoming⟩
  exact List.mem_of_getElem? (i := 2) (by rfl)

end LibuvWorks.Socks5.Client
