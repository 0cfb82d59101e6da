import LibuvWorks.UVSocket.Server

/-!
# The handle of a server, and of a client

`CTCPServer` and `CTCPClient` keep one handle each, `server_` and `client_`, which `Start` and
`connect` close and initialise again. `isinit_` is meant to say whether it is to be closed.
-/
namespace LibuvWorks.UVSocket

inductive Kind where
  | server : Kind
  | client : Kind
  deriving DecidableEq

/-- The calls on `server_` or `client_`, and the close callback. -/
inductive Call where
  | tcpInit (ok : Bool) : Call
  | uvClose : Call
  | closed : Call

/-- A `CTCPServer` or a `CTCPClient`: `isinit_`, whether `loop_` is not null, the handle,
whether it is being read, and the calls on it, the latest first. -/
structure Owner where
  kind : Kind
  loop : Bool
  isinit : Bool
  handle : Tcp
  reading : Bool
  log : List Call

namespace Owner

variable (s : Owner)

/-- What the calls of `init` return. -/
structure Returns where
  tcpInit : ℤ
  mutexInit : ℤ

def uvTcpInit (ret : ℤ) : Owner :=
  if ret = 0 then { s with handle := .opened, log := .tcpInit true :: s.log }
  else { s with log := .tcpInit false :: s.log }

def uvClose : Owner :=
  { s with handle := .closing true, reading := false, log := .uvClose :: s.log }

/-- `CTCPServer::close` and `CTCPClient::close` -/
def close : Owner := if s.isinit then { s.uvClose with isinit := false } else s

/-- `CTCPServer::init` -/
def initServer (ret : Returns) : Owner :=
  if s.isinit then s
  else if !s.loop then s
  else if ret.mutexInit ≠ 0 then s
  else if ret.tcpInit ≠ 0 then s.uvTcpInit ret.tcpInit
  else { s.uvTcpInit ret.tcpInit with isinit := true }

/-- `CTCPClient::init` -/
def initClient (ret : Returns) : Owner :=
  if s.isinit then s
  else if !s.loop then s
  else if ret.tcpInit ≠ 0 then s.uvTcpInit ret.tcpInit
  else if ret.mutexInit ≠ 0 then s.uvTcpInit ret.tcpInit
  else { s.uvTcpInit ret.tcpInit with isinit := true }

def init (ret : Returns) : Owner :=
  match s.kind with
  | .server => s.initServer ret
  | .client => s.initClient ret

/-- `Start`, `Start6`, `connect` and `connect6` -/
def start (ret : Returns) : Owner := s.close.init ret

def afterConnect (status readStart : ℤ) : Owner :=
  if status ≠ 0 then s else { s with reading := readStart = 0 }

def afterClientRecv (nread : ℤ) : Owner := if nread < 0 then s.uvClose else s

inductive Event where
  | start (ret : Returns) : Event
  | close : Event
  | connected (status readStart : ℤ) : Event
  | recv (nread : ℤ) : Event
  | closed : Event

/-- What libuv can report; a server's own handle is not read. -/
def Pending : Event → Prop
  | .start _ | .close => True
  | .connected _ _ => s.kind = .client ∧ s.handle = .opened
  | .recv _ => s.kind = .client ∧ s.handle = .opened ∧ s.reading = true
  | .closed => s.handle = .closing true

instance (e : Event) : Decidable (s.Pending e) :=
  match e with
  | .start _ | .close => inferInstanceAs (Decidable True)
  | .connected _ _ => inferInstanceAs (Decidable (_ ∧ _))
  | .recv _ => inferInstanceAs (Decidable (_ ∧ _ ∧ _))
  | .closed => inferInstanceAs (Decidable (_ = _))

def next : Event → Owner
  | .start ret => s.start ret
  | .close => s.close
  | .connected status readStart => s.afterConnect status readStart
  | .recv nread => s.afterClientRecv nread
  | .closed => { s with handle := .closed, log := .closed :: s.log }

def Init (s : Owner) : Prop :=
  s.isinit = false ∧ s.handle = .unset ∧ s.reading = false ∧ s.log = []

def step (s : Owner) (e : Event) : Option Owner := if s.Pending e then some (s.next e) else none

def Step (s : Owner) (e : Event) (t : Owner) : Prop := step s e = some t

def StepIf (cond : Owner → Event → Prop) (s : Owner) (e : Event) (t : Owner) : Prop :=
  cond s e ∧ Step s e t

/-! ### The rules of libuv -/

open Transition History

/-- The handle has never been initialised, or its close callback has run since. -/
def released : List Call → Bool
  | [] => true
  | .closed :: _ => true
  | .tcpInit true :: _ => false
  | .tcpInit false :: log => released log
  | .uvClose :: log => released log

/-- `uv_close` has not been called since the handle was last initialised. -/
def unclosed : List Call → Bool
  | [] => true
  | .closed :: log => unclosed log
  | .tcpInit true :: _ => true
  | .tcpInit false :: log => unclosed log
  | .uvClose :: _ => false

/-- A call is allowed after the ones before it. -/
def Allowed : Call → List Call → Prop
  | .tcpInit _, older => released older = true
  | .uvClose, older => unclosed older = true
  | .closed, _ => True

/-- `init` gets as far as `uv_tcp_init`. -/
def CallsInit (s : Owner) (ret : Returns) : Prop :=
  s.loop = true ∧ (s.kind = .server → ret.mutexInit = 0)

/-- The handle is closed while it is open, and initialised when libuv is done with it. -/
def Ready (s : Owner) : Event → Prop
  | .start ret => (s.isinit = true → s.handle = .opened) ∧
      (CallsInit s ret → s.isinit = false ∧ (s.handle = .unset ∨ s.handle = .closed))
  | .close => s.isinit = true → s.handle = .opened
  | _ => True

instance (s : Owner) (e : Event) : Decidable (Ready s e) :=
  match e with
  | .start _ => inferInstanceAs (Decidable ((_ = _ → _ = _) ∧ (_ ∧ (_ = _ → _ = _) → _ ∧ (_ ∨ _))))
  | .close => inferInstanceAs (Decidable (_ = _ → _ = _))
  | .connected _ _ | .recv _ | .closed => inferInstanceAs (Decidable True)

variable {s t : Owner} {e : Event} {ret : Returns}

structure Agrees (s : Owner) : Prop where
  allowed : Justified Allowed s.log
  released : released s.log = true ↔ s.handle = .unset ∨ s.handle = .closed
  unclosed : unclosed s.log = true ↔ s.handle = .unset ∨ s.handle = .opened
  handle : s.handle ≠ .closing false
  isinit : s.isinit = true → s.handle ≠ .unset

theorem Agrees.of_init (h : Init s) : Agrees s := by
  obtain ⟨hinit, hhandle, -, hlog⟩ := h
  refine ⟨?_, ?_, ?_, ?_, ?_⟩ <;> simp [hinit, hhandle, hlog, Owner.released, Owner.unclosed]

theorem Agrees.uvClose (h : Agrees s) (hhandle : s.handle = .opened) : Agrees s.uvClose := by
  have hunclosed := h.unclosed.mpr (.inr hhandle)
  have hreleased := h.released
  refine ⟨?_, ?_, ?_, ?_, ?_⟩ <;>
    simp_all [Owner.uvClose, Allowed, Owner.released, Owner.unclosed, h.allowed]

theorem Agrees.close (h : Agrees s) (hready : s.isinit = true → s.handle = .opened) :
    Agrees s.close := by
  unfold Owner.close
  split
  · next hinit =>
    have hclose := h.uvClose (hready hinit)
    exact ⟨hclose.1, hclose.2, hclose.3, hclose.4, fun habs => nomatch habs⟩
  · exact h

theorem Agrees.uvTcpInit {r : ℤ} (h : Agrees s)
    (hhandle : s.handle = .unset ∨ s.handle = .closed) : Agrees (s.uvTcpInit r) := by
  have hreleased := h.released.mpr hhandle
  have hunclosed := h.unclosed
  unfold Owner.uvTcpInit
  split
  · refine ⟨?_, ?_, ?_, ?_, ?_⟩ <;>
      simp [Allowed, Owner.released, Owner.unclosed, h.allowed, hreleased]
  · refine ⟨?_, ?_, ?_, h.handle, h.isinit⟩
    · simp [Allowed, h.allowed, hreleased]
    · simpa [Owner.released] using h.released
    · simpa [Owner.unclosed] using hunclosed

theorem Agrees.setInit (h : Agrees s) (hhandle : s.handle ≠ .unset) :
    Agrees { s with isinit := true } :=
  ⟨h.1, h.2, h.3, h.4, fun _ => hhandle⟩

theorem init_cases (ret : Returns) (hinit : s.isinit = false) :
    (¬ CallsInit s ret ∧ s.init ret = s) ∨
      (CallsInit s ret ∧ (s.init ret = s.uvTcpInit ret.tcpInit ∨
        (ret.tcpInit = 0 ∧ s.init ret = { s.uvTcpInit ret.tcpInit with isinit := true }))) := by
  cases hkind : s.kind <;> cases hloop : s.loop <;>
    by_cases htcp : ret.tcpInit = 0 <;> by_cases hmutex : ret.mutexInit = 0 <;>
    simp [Owner.init, initServer, initClient, CallsInit, hkind, hloop, hinit, htcp, hmutex]

theorem Agrees.init (h : Agrees s) (hinit : s.isinit = false)
    (hhandle : CallsInit s ret → s.handle = .unset ∨ s.handle = .closed) :
    Agrees (s.init ret) := by
  obtain ⟨-, hinit⟩ | ⟨hcalls, hinit | ⟨hzero, hinit⟩⟩ := init_cases ret hinit
  · rwa [hinit]
  · rw [hinit]
    exact h.uvTcpInit (hhandle hcalls)
  · rw [hinit]
    apply (h.uvTcpInit (hhandle hcalls)).setInit
    simp [Owner.uvTcpInit, hzero]

theorem close_isinit : s.close.isinit = false := by
  unfold Owner.close
  split <;> simp_all

theorem callsInit_close : CallsInit s.close ret ↔ CallsInit s ret := by
  unfold Owner.close
  split <;> rfl

theorem Agrees.start (h : Agrees s) (hready : Ready s (.start ret)) : Agrees (s.start ret) := by
  apply (h.close hready.1).init close_isinit
  intro hcalls
  obtain ⟨hinit, hhandle⟩ := hready.2 (callsInit_close.mp hcalls)
  simpa [Owner.close, hinit] using hhandle

theorem Agrees.step (h : Agrees s) (hready : Ready s e) (hstep : Step s e t) : Agrees t := by
  obtain ⟨hp, rfl⟩ : s.Pending e ∧ s.next e = t := by simpa [Step, Owner.step] using hstep
  cases e with
  | start ret => exact h.start hready
  | close => exact h.close hready
  | connected status readStart =>
    simp only [next, afterConnect]
    split
    · exact h
    · exact ⟨h.1, h.2, h.3, h.4, h.5⟩
  | recv nread =>
    simp only [next, afterClientRecv]
    split
    · exact h.uvClose hp.2.1
    · exact h
  | closed =>
    have hunclosed := h.unclosed
    refine ⟨?_, ?_, ?_, ?_, ?_⟩ <;>
      simp_all [next, Pending, Allowed, Owner.released, Owner.unclosed, h.allowed]

theorem Agrees.of_reachable (h : Reachable Init (StepIf Ready) s) : Agrees s :=
  h.invariant (fun _ => .of_init) fun _ _ _ _ hs hstep => hs.step hstep.1 hstep.2

theorem Agrees.not_allowed_close (h : Agrees s) (hinit : s.isinit = true)
    (hhandle : s.handle ≠ .opened) : ¬ Justified Allowed s.uvClose.log := by
  have hunset := h.isinit hinit
  simp only [Owner.uvClose, justified_cons, not_and]
  intro hallowed
  have := h.unclosed.mp hallowed
  simp_all

theorem not_allowed_init {r : ℤ} (h : released s.log = false) :
    ¬ Justified Allowed (s.uvTcpInit r).log := by
  unfold Owner.uvTcpInit
  split <;> simp [Allowed, h]

theorem not_allowed_start (h : released s.close.log = false) (hcalls : CallsInit s ret) :
    ¬ Justified Allowed (s.start ret).log := by
  have hno := not_allowed_init (r := ret.tcpInit) h
  obtain ⟨hnot, -⟩ | ⟨-, hinit | ⟨-, hinit⟩⟩ := init_cases ret (close_isinit (s := s))
  · exact absurd (callsInit_close.mpr hcalls) hnot
  · rwa [Owner.start, hinit]
  · rwa [Owner.start, hinit]

theorem not_allowed_start_of_close (h : ¬ Justified Allowed s.close.log) :
    ¬ Justified Allowed (s.start ret).log := by
  have hno : ∀ {r}, ¬ Justified Allowed (s.close.uvTcpInit r).log := by
    intro r
    unfold Owner.uvTcpInit
    split <;> simp [h]
  obtain ⟨-, hinit⟩ | ⟨-, hinit | ⟨-, hinit⟩⟩ := init_cases ret (close_isinit (s := s))
  · rwa [Owner.start, hinit]
  · rw [Owner.start, hinit]
    exact hno
  · rw [Owner.start, hinit]
    exact hno

theorem Agrees.ready (h : Agrees s) (hstep : Step s e t) (hallowed : Justified Allowed t.log) :
    Ready s e := by
  obtain ⟨hp, rfl⟩ : s.Pending e ∧ s.next e = t := by simpa [Step, Owner.step] using hstep
  have hclose : Justified Allowed s.close.log → s.isinit = true → s.handle = .opened := by
    intro hclosed hinit
    by_contra hne
    rw [Owner.close, if_pos hinit] at hclosed
    exact h.not_allowed_close hinit hne hclosed
  cases e with
  | start ret =>
    have hopened : s.isinit = true → s.handle = .opened := by
      apply hclose
      by_contra hno
      exact not_allowed_start_of_close hno hallowed
    refine ⟨hopened, fun hcalls => ?_⟩
    have hreleased : Owner.released s.close.log = true := by
      by_contra hno
      exact not_allowed_start (by simpa using hno) hcalls hallowed
    cases hinit : s.isinit with
    | false =>
      rw [Owner.close, hinit] at hreleased
      exact ⟨rfl, h.released.mp hreleased⟩
    | true =>
      rw [Owner.close, if_pos hinit] at hreleased
      have := h.released.mp hreleased
      simp [hopened hinit] at this
  | close => exact hclose hallowed
  | _ => trivial

/-- In every run whose steps are `Ready`, for both classes: `uv_close` is called at most once
between two initialisations, and `uv_tcp_init` only on a handle that is new or whose close
callback has run; a step that is not `Ready` breaks this. -/
theorem handle_calls_allowed (h : Reachable Init (StepIf Ready) s) :
    (∀ newer older, s.log = newer ++ .uvClose :: older → unclosed older = true) ∧
      (∀ newer older ok, s.log = newer ++ .tcpInit ok :: older → released older = true) ∧
      ∀ e t, Step s e t → (Justified Allowed t.log ↔ Ready s e) := by
  have hagrees := Agrees.of_reachable h
  refine ⟨fun newer older hlog => hagrees.allowed newer .uvClose older hlog,
    fun newer older ok hlog => hagrees.allowed newer (.tcpInit ok) older hlog,
    fun e t hstep => ⟨hagrees.ready hstep, fun hready => (hagrees.step hready hstep).allowed⟩⟩

/-! ### Concrete runs -/

def Returns.ok : Returns := ⟨0, 0⟩

def fresh (kind : Kind) : Owner := ⟨kind, true, false, .unset, false, []⟩

theorem init_fresh {kind : Kind} : Init (fresh kind) := ⟨rfl, rfl, rfl, rfl⟩

/-- A client connects, is closed, and connects again when its handle is free. -/
theorem handle_calls_allowed_twice :
    ∃ s : Owner, s.log = [.tcpInit true, .closed, .uvClose, .tcpInit true] ∧
      (∀ newer older, s.log = newer ++ .uvClose :: older → unclosed older = true) ∧
      (∀ newer older ok, s.log = newer ++ .tcpInit ok :: older → released older = true) ∧
      ∀ e t, Step s e t → (Justified Allowed t.log ↔ Ready s e) := by
  have hsome : ([.start .ok, .close, .closed, .start .ok].foldlM
      (fun s e => if Ready s e then step s e else none) (fresh .client)).isSome = true := by rfl
  exact ⟨_, by rfl,
    handle_calls_allowed (.of_foldlM_if (.init init_fresh) (Option.some_get hsome).symm)⟩

/-- `Start` twice, or `connect` twice, initialises a handle that is closing; and a client whose
connection ends is closed twice. -/
theorem startTwice_not_allowed :
    (∀ kind : Kind, ∃ (s : Owner) (older : List Call), Reachable Init Step s ∧ s.kind = kind ∧
      s.log = .tcpInit true :: older ∧ released older = false) ∧
      ∃ (s : Owner) (older : List Call), Reachable Init Step s ∧ s.kind = .client ∧
        s.log = .uvClose :: older ∧ unclosed older = false := by
  refine ⟨fun kind => ?_, ?_⟩
  · have hsome : ([.start .ok, .start .ok].foldlM step (fresh kind)).isSome = true := by
      cases kind <;> rfl
    exact ⟨_, _, .of_foldlM (.init init_fresh) (Option.some_get hsome).symm,
      by cases kind <;> rfl, by cases kind <;> rfl, by rfl⟩
  · have hsome : ([.start .ok, .connected 0 0, .recv (-4095), .close].foldlM step
        (fresh .client)).isSome = true := by rfl
    exact ⟨_, _, .of_foldlM (.init init_fresh) (Option.some_get hsome).symm, by rfl, by rfl,
      by rfl⟩

end Owner

end LibuvWorks.UVSocket
