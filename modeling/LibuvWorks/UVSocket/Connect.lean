import LibuvWorks.UVSocket.Lifecycle
import LibuvWorks.Lib.Fairness

/-!
# Connecting a client: `connect` and `ConnectThread`

`connect` starts a thread that connects, and polls `connectstatus_` until it is not
`CONNECT_DIS`. Only `AfterConnect` sets it, and nothing resets it for the next attempt.
-/
namespace LibuvWorks.UVSocket

open Function (update update_apply)
open Transition

/-- The values of `connectstatus_`. -/
inductive ConnectStatus where
  | timeout : ConnectStatus
  | finish : ConnectStatus
  | error : ConnectStatus
  | dis : ConnectStatus
  deriving DecidableEq

/-- What libuv answers in an attempt: in `init`, to `uv_thread_create`, to `uv_ip4_addr` or
`uv_ip6_addr` and to `uv_tcp_connect`; the status that `AfterConnect` gets; and what
`uv_read_start` returns there. -/
structure Answers where
  init : Owner.Returns
  threadCreate : ℤ
  addr : ℤ
  tcpConnect : ℤ
  status : ℤ
  readStart : ℤ

/-- The attempt gets as far as `AfterConnect`. -/
def Answers.Reaches (a : Answers) : Prop := a.addr = 0 ∧ a.tcpConnect = 0

def Answers.Connects (a : Answers) : Prop := a.Reaches ∧ a.status = 0 ∧ a.readStart = 0

instance (a : Answers) : Decidable a.Reaches := inferInstanceAs (Decidable (_ ∧ _))

instance (a : Answers) : Decidable a.Connects := inferInstanceAs (Decidable (_ ∧ _))

/-- How far the thread of an attempt has come; `connected` says whether reading was started. -/
inductive Attempt where
  | none : Attempt
  | thread (six : Bool) : Attempt
  | gaveUp : Attempt
  | connecting : Attempt
  | connected (reading : Bool) : Attempt
  deriving DecidableEq

def Attempt.Begun : Attempt → Prop
  | .thread _ | .connecting => True
  | _ => False

/-- A `CTCPClient` that connects: its handle, `connectstatus_`, and for each call of `connect` or
`connect6` the answers, the attempt and what was returned; `polls` is the call that polls. -/
structure ConnectClient where
  owner : Owner
  status : ConnectStatus
  calls : ℕ
  answers : ℕ → Answers
  attempt : ℕ → Attempt
  polls : Option ℕ
  returned : ℕ → Option Bool

namespace ConnectClient

variable (s : ConnectClient)

@[simps] def setAttempt (i : ℕ) (a : Attempt) : ConnectClient :=
  { s with attempt := update s.attempt i a }

@[simps] def giveBack (i : ℕ) (b : Bool) : ConnectClient :=
  { s with returned := update s.returned i (some b) }

/-- A call closes the handle and initialises it. -/
@[simps] def call (a : Answers) : ConnectClient :=
  { s with
    owner := s.owner.start a.init
    calls := s.calls + 1
    answers := update s.answers s.calls a }

/-- `connect` and `connect6`, up to the loop. -/
def startThread (six : Bool) (a : Answers) : ConnectClient :=
  let i := s.calls
  let s := s.call a
  if a.threadCreate ≠ 0 then s.giveBack i false
  else { s.setAttempt i (.thread six) with polls := some i }

/-- `CTCPClient::connect` -/
def connect (a : Answers) : ConnectClient := s.startThread false a

/-- `CTCPClient::connect6` -/
def connect6 (a : Answers) : ConnectClient := s.startThread true a

/-- One turn of the loop in `connect` and `connect6`. -/
def poll (i : ℕ) : ConnectClient :=
  if s.status = .dis then s
  else { s.giveBack i (s.status = .finish) with polls := none }

/-- `ConnectThread` and `ConnectThread6`, which parse the address each in its own way. -/
def connectThread (i : ℕ) : ConnectClient :=
  if (s.answers i).addr ≠ 0 then s.setAttempt i .gaveUp
  else if (s.answers i).tcpConnect ≠ 0 then s.setAttempt i .gaveUp
  else s.setAttempt i .connecting

def afterConnect (i : ℕ) : ConnectClient :=
  let a := s.answers i
  let s := { s with owner := s.owner.afterConnect a.status a.readStart }
  if a.status ≠ 0 then { s.setAttempt i (.connected false) with status := .error }
  else if a.readStart ≠ 0 then { s.setAttempt i (.connected false) with status := .error }
  else { s.setAttempt i (.connected true) with status := .finish }

inductive Event where
  | connect (a : Answers) : Event
  | connect6 (a : Answers) : Event
  | close : Event
  | poll (i : ℕ) : Event
  | thread (i : ℕ) : Event
  | afterConnect (i : ℕ) : Event
  | recv (nread : ℤ) : Event
  | closed : Event

/-- One call of `connect` or `connect6` at a time; and what the threads and libuv can do. -/
def Pending : Event → Prop
  | .connect _ | .connect6 _ => s.polls = none
  | .close => True
  | .poll i => s.polls = some i
  | .thread i => s.attempt i = .thread false ∨ s.attempt i = .thread true
  | .afterConnect i => s.attempt i = .connecting
  | .recv nread => s.owner.Pending (.recv nread)
  | .closed => s.owner.Pending .closed

instance (e : Event) : Decidable (s.Pending e) :=
  match e with
  | .connect _ | .connect6 _ | .poll _ => inferInstanceAs (Decidable (s.polls = _))
  | .close => inferInstanceAs (Decidable True)
  | .thread _ => inferInstanceAs (Decidable (_ ∨ _))
  | .afterConnect _ => inferInstanceAs (Decidable (_ = _))
  | .recv nread => inferInstanceAs (Decidable (s.owner.Pending (.recv nread)))
  | .closed => inferInstanceAs (Decidable (s.owner.Pending .closed))

def next : Event → ConnectClient
  | .connect a => s.connect a
  | .connect6 a => s.connect6 a
  | .close => { s with owner := s.owner.close }
  | .poll i => s.poll i
  | .thread i => s.connectThread i
  | .afterConnect i => s.afterConnect i
  | .recv nread => { s with owner := s.owner.next (.recv nread) }
  | .closed => { s with owner := s.owner.next .closed }

/-- `CTCPClient::CTCPClient` -/
def Init (s : ConnectClient) : Prop :=
  s.owner.Init ∧ s.owner.kind = .client ∧ s.status = .dis ∧ s.calls = 0 ∧
    (∀ i, s.attempt i = .none) ∧ s.polls = none ∧ ∀ i, s.returned i = none

def step (s : ConnectClient) (e : Event) : Option ConnectClient :=
  if s.Pending e then some (s.next e) else none

def Step (s : ConnectClient) (e : Event) (t : ConnectClient) : Prop := step s e = some t

/-! ### The attempts that are answered -/

/-- No thread is started; or no attempt has been made before that got to `AfterConnect`, and this
one gets there; or the last one that got there failed, and this one fails. -/
def Answered (s : ConnectClient) (a : Answers) : Prop :=
  a.threadCreate = 0 →
    (s.status = .dis ∧ a.Reaches) ∨ (s.status = .error ∧ ¬ a.Connects)

def Answerable (s : ConnectClient) : Event → Prop
  | .connect a | .connect6 a => Answered s a
  | _ => True

instance (s : ConnectClient) (e : Event) : Decidable (Answerable s e) :=
  match e with
  | .connect _ | .connect6 _ => inferInstanceAs (Decidable (_ → (_ ∧ _) ∨ (_ ∧ ¬ _)))
  | .close | .poll _ | .thread _ | .afterConnect _ | .recv _ | .closed =>
    inferInstanceAs (Decidable True)

variable {s t : ConnectClient} {e : Event} {i : ℕ} {a : Answers} {j : ℕ}

/-- An attempt that has begun is the first and gets to `AfterConnect`, or it follows one that
failed and fails. What is polled for and what has been returned agree with the attempt. -/
structure Told (s : ConnectClient) (i : ℕ) : Prop where
  unused : s.calls ≤ i → s.attempt i = .none ∧ s.returned i = none ∧ s.polls ≠ some i
  polls : s.polls = some i → s.returned i = none
  begun : (s.attempt i).Begun →
    (s.status = .dis ∧ s.polls = some i ∧ (s.answers i).Reaches) ∨
      (s.status = .error ∧ ¬ (s.answers i).Connects)
  connecting : s.attempt i = .connecting → (s.answers i).Reaches
  waits : s.polls = some i → s.status = .dis → (s.attempt i).Begun
  polled : s.polls = some i → s.status ≠ .dis →
    (s.status = .finish ↔ s.attempt i = .connected true)
  returned : ∀ b, s.returned i = some b → (b = true ↔ s.attempt i = .connected true)

theorem Told.of_init (h : Init s) : Told s i := by
  obtain ⟨-, -, hstatus, -, hattempt, hpolls, hreturned⟩ := h
  refine ⟨?_, ?_, ?_, ?_, ?_, ?_, ?_⟩ <;> simp [hattempt, hpolls, hreturned, Attempt.Begun]

theorem Told.frame (h : Told s i) (hcalls : s.calls ≤ t.calls)
    (hattempt : t.attempt i = s.attempt i) (hanswers : t.answers i = s.answers i)
    (hreturned : t.returned i = s.returned i) (hpolls : t.polls = some i ↔ s.polls = some i)
    (hstatus : t.status = s.status) : Told t i := by
  refine ⟨fun hle => ?_, ?_, ?_, ?_, ?_, ?_, ?_⟩
  · rw [hattempt, hreturned, Ne, hpolls]
    exact h.unused (Nat.le_trans hcalls hle)
  · rw [hreturned, hpolls]
    exact h.polls
  · rw [hattempt, hstatus, hpolls, hanswers]
    exact h.begun
  · rw [hattempt, hanswers]
    exact h.connecting
  · rw [hattempt, hstatus, hpolls]
    exact h.waits
  · rw [hattempt, hstatus, hpolls]
    exact h.polled
  · rw [hattempt, hreturned]
    exact h.returned

theorem Told.startThread {six : Bool} (h : ∀ i, Told s i) (hpolls : s.polls = none)
    (ha : Answered s a) (i : ℕ) : Told (s.startThread six a) i := by
  obtain ⟨hattempt, hreturned, -⟩ := (h s.calls).unused le_rfl
  simp only [ConnectClient.startThread]
  by_cases hcalls : i = s.calls
  · subst hcalls
    split
    · refine ⟨?_, ?_, ?_, ?_, ?_, ?_, ?_⟩ <;> simp [hattempt, hpolls, Attempt.Begun]
    · next hcreate =>
      have hanswered := ha (not_not.mp hcreate)
      refine ⟨?_, ?_, ?_, ?_, ?_, ?_, ?_⟩ <;> simp [hreturned, Attempt.Begun]
      · obtain ⟨hdis, hreaches⟩ | ⟨herror, hfails⟩ := hanswered
        · exact .inl ⟨hdis, hreaches⟩
        · exact .inr ⟨herror, hfails⟩
      · rintro - hfinish
        simp [hfinish] at hanswered
  · split
    · refine (h i).frame ?_ ?_ ?_ ?_ ?_ ?_ <;> simp [hcalls]
    · refine (h i).frame ?_ ?_ ?_ ?_ ?_ ?_ <;> simp [hcalls, hpolls, Ne.symm hcalls]

theorem Told.poll (h : ∀ i, Told s i) (hpolls : s.polls = some j) (i : ℕ) : Told (s.poll j) i := by
  unfold ConnectClient.poll
  split
  · exact h i
  · next hdis =>
    by_cases hij : i = j
    · subst hij
      have hpolled := (h i).polled hpolls hdis
      refine ⟨fun hle => ?_, nofun, fun hbegun => ?_, (h i).connecting, nofun, nofun, ?_⟩
      · exact absurd hpolls ((h i).unused hle).2.2
      · exact .inr (((h i).begun hbegun).resolve_left fun habs => hdis habs.1)
      · simpa using hpolled
    · refine (h i).frame le_rfl rfl rfl ?_ ?_ rfl
      · simp [hij]
      · simp [hpolls, Ne.symm hij]

theorem not_connected (h : (s.attempt i).Begun) {b : Bool} : s.attempt i ≠ .connected b := by
  intro habs
  rw [habs] at h
  exact h

theorem Told.called (h : Told s i) (hbegun : (s.attempt i).Begun) : ¬ s.calls ≤ i := by
  intro hle
  rw [(h.unused hle).1] at hbegun
  exact hbegun

theorem Told.returned_ne (h : Told s i) (hbegun : (s.attempt i).Begun) :
    s.returned i ≠ some true :=
  fun htrue => not_connected hbegun ((h.returned true htrue).mp rfl)

theorem Told.setAttempt {b : Attempt} (h : ∀ i, Told s i) (hbegun : (s.attempt j).Begun)
    (hb : (b = .gaveUp ∧ ¬ (s.answers j).Reaches) ∨
      (b = .connecting ∧ (s.answers j).Reaches)) (i : ℕ) :
    Told (s.setAttempt j b) i := by
  by_cases hij : i = j
  · subst hij
    have hcalled := (h i).called hbegun
    have hfalse := (h i).returned_ne hbegun
    have hpolls := (h i).polls
    obtain ⟨rfl, hreaches⟩ | ⟨rfl, hreaches⟩ := hb
    · have herror : s.status = .error := by
        obtain ⟨-, -, habs⟩ | ⟨herror, -⟩ := (h i).begun hbegun
        · exact absurd habs hreaches
        · exact herror
      refine ⟨fun hle => absurd hle hcalled, hpolls, ?_, ?_, ?_, ?_, ?_⟩ <;>
        simp [Attempt.Begun, herror]
      exact hfalse
    · have hbegun' := (h i).begun hbegun
      refine ⟨fun hle => absurd hle hcalled, hpolls, ?_, ?_, ?_, ?_, ?_⟩ <;>
        simp [Attempt.Begun, hreaches]
      · simpa [hreaches] using hbegun'
      · intro _ hdis hfinish
        simp [hfinish] at hbegun'
      · exact hfalse
  · refine (h i).frame le_rfl ?_ rfl rfl Iff.rfl rfl
    simp [hij]

theorem Told.connectThread (h : ∀ i, Told s i)
    (hthread : s.attempt j = .thread false ∨ s.attempt j = .thread true) (i : ℕ) :
    Told (s.connectThread j) i := by
  have hbegun : (s.attempt j).Begun := by
    rcases hthread with hthread | hthread <;> rw [hthread] <;> trivial
  unfold ConnectClient.connectThread
  split
  · next haddr => exact .setAttempt h hbegun (.inl ⟨rfl, fun habs => haddr habs.1⟩) i
  · next haddr =>
    split
    · next hconnect => exact .setAttempt h hbegun (.inl ⟨rfl, fun habs => hconnect habs.2⟩) i
    · next hconnect =>
      exact .setAttempt h hbegun (.inr ⟨rfl, not_not.mp haddr, not_not.mp hconnect⟩) i

/-- `AfterConnect` of an attempt that gets there sets the status accordingly. -/
theorem afterConnect_eq {i : ℕ} (hreaches : (s.answers i).Reaches) :
    s.afterConnect i =
      { s with
        owner := s.owner.afterConnect (s.answers i).status (s.answers i).readStart
        attempt := update s.attempt i (.connected ((s.answers i).Connects : Bool))
        status := if (s.answers i).Connects then .finish else .error } := by
  unfold ConnectClient.afterConnect
  have hiff : (s.answers i).Connects ↔ (s.answers i).status = 0 ∧ (s.answers i).readStart = 0 :=
    and_iff_right hreaches
  by_cases hstatus : (s.answers i).status = 0 <;>
    by_cases hread : (s.answers i).readStart = 0 <;>
    simp [hiff, hstatus, hread, ConnectClient.setAttempt]

theorem Told.afterConnect (h : ∀ i, Told s i) (hconnecting : s.attempt j = .connecting)
    (i : ℕ) : Told (s.afterConnect j) i := by
  have hbegun : (s.attempt j).Begun := by
    rw [hconnecting]
    trivial
  have hcases := (h j).begun hbegun
  rw [afterConnect_eq ((h j).connecting hconnecting)]
  by_cases hij : i = j
  · subst hij
    have hfalse := (h i).returned_ne hbegun
    refine ⟨fun hle => absurd hle ((h i).called hbegun), (h i).polls, ?_, ?_, ?_, ?_, ?_⟩
    · simp [Attempt.Begun]
    · simp
    · intro _ hdis
      split at hdis <;> cases hdis
    · simp
    · intro b hb
      obtain ⟨-, hpolls, -⟩ | ⟨-, hfails⟩ := hcases
      · exact nomatch ((h i).polls hpolls).symm.trans hb
      · cases b
        · simp [hfails]
        · exact absurd hb hfalse
  · obtain ⟨hdis, hpolls, -⟩ | ⟨herror, hfails⟩ := hcases
    · have hother : ¬ (s.attempt i).Begun := by
        intro hbegun
        obtain ⟨-, hpolls', -⟩ | ⟨herror, -⟩ := (h i).begun hbegun
        · exact hij (Option.some.inj (hpolls'.symm.trans hpolls))
        · rw [hdis] at herror
          cases herror
      have hne : s.polls ≠ some i := by simp [hpolls, Ne.symm hij]
      have hi := h i
      refine ⟨?_, fun habs => absurd habs hne, ?_, ?_, fun habs => absurd habs hne,
        fun habs => absurd habs hne, ?_⟩
      · simpa [hij] using hi.unused
      · simp [hij, hother]
      · simpa [hij] using hi.connecting
      · simpa [hij] using hi.returned
    · refine (h i).frame le_rfl ?_ rfl rfl Iff.rfl ?_
      · simp [hij]
      · simp [herror, hfails]

theorem Told.step (h : ∀ i, Told s i) (hcond : Answerable s e) (hstep : Step s e t) (i : ℕ) :
    Told t i := by
  obtain ⟨hp, rfl⟩ : s.Pending e ∧ s.next e = t := by
    simpa [Step, ConnectClient.step] using hstep
  cases e with
  | connect a | connect6 a => exact .startThread h hp hcond i
  | close => exact (h i).frame le_rfl rfl rfl rfl Iff.rfl rfl
  | poll j => exact .poll h hp i
  | thread j => exact .connectThread h hp i
  | afterConnect j => exact .afterConnect h hp i
  | recv nread | closed => exact (h i).frame le_rfl rfl rfl rfl Iff.rfl rfl

theorem Told.of_reachable (h : Reachable Init (Guarded Answerable Step) s) : ∀ i, Told s i :=
  h.invariant (P := fun s => ∀ i, Told s i) (fun _ hinit _ => .of_init hinit)
    fun _ _ _ _ hs hstep => Told.step hs hstep.1 hstep.2

/-! ### The calls return -/

def Event.Progress : Event → Prop
  | .poll _ | .thread _ | .afterConnect _ => True
  | _ => False

def FairRun (x : Execution (Guarded Answerable Step)) : Prop :=
  ∀ e : Event, e.Progress → x.Fair (fun s => s.Pending e) e

theorem step_polls (hstep : Step s e t) (hpolls : s.polls = some i) :
    t.returned i ≠ none ∨
      (t.polls = some i ∧ (e ≠ .thread i → e ≠ .afterConnect i → t.attempt i = s.attempt i)) := by
  obtain ⟨hp, rfl⟩ : s.Pending e ∧ s.next e = t := by
    simpa [Step, ConnectClient.step] using hstep
  have hset : ∀ {j : ℕ} {b : Attempt}, i ≠ j → (s.setAttempt j b).attempt i = s.attempt i :=
    fun hij => Function.update_of_ne hij _ _
  cases e with
  | connect a | connect6 a => exact nomatch hp.symm.trans hpolls
  | close | recv nread | closed => exact .inr ⟨hpolls, fun _ _ => rfl⟩
  | poll j =>
    obtain rfl : i = j := Option.some.inj (hpolls.symm.trans hp)
    simp only [next, ConnectClient.poll]
    split
    · exact .inr ⟨hpolls, fun _ _ => rfl⟩
    · exact .inl (by simp)
  | thread j =>
    refine .inr ⟨?_, fun hne _ => ?_⟩
    · simp only [next, ConnectClient.connectThread]
      split_ifs <;> exact hpolls
    · have hij : i ≠ j := fun hij => hne (hij ▸ rfl)
      simp only [next, ConnectClient.connectThread]
      split_ifs <;> exact hset hij
  | afterConnect j =>
    refine .inr ⟨?_, fun _ hne => ?_⟩
    · simp only [next, ConnectClient.afterConnect]
      split_ifs <;> exact hpolls
    · have hij : i ≠ j := fun hij => hne (hij ▸ rfl)
      simp only [next, ConnectClient.afterConnect]
      split_ifs <;> exact hset hij

section Execution

variable {x : Execution (Guarded Answerable Step)}

/-- Call `i` polls, and its attempt is at a stage. -/
def PollsAt (i : ℕ) (stage : Attempt → Prop) (s : ConnectClient) : Prop :=
  s.polls = some i ∧ stage (s.attempt i)

theorem leadsTo_of_fair {stage : Attempt → Prop} {R : ConnectClient → Prop} (hfair : FairRun x)
    (he : e.Progress) (hown : ∀ n, PollsAt i stage (x.state n) → x.event n = .thread i ∨
      x.event n = .afterConnect i → x.event n = e)
    (henabled : ∀ n, PollsAt i stage (x.state n) → (x.state n).Pending e)
    (hevent : ∀ n, PollsAt i stage (x.state n) → x.event n = e → R (x.state (n + 1))) :
    x.LeadsTo (PollsAt i stage) fun s => R s ∨ s.returned i ≠ none := by
  apply (hfair e he).leadsTo henabled (fun n hP he => .inl (hevent n hP he))
  intro n hP hne
  obtain hreturned | ⟨hpolls, hsame⟩ := step_polls (x.next n).2 hP.1
  · exact .inr (.inr hreturned)
  · have hattempt := hsame (fun habs => hne (hown n hP (.inl habs)))
      fun habs => hne (hown n hP (.inr habs))
    refine .inl ⟨hpolls, ?_⟩
    rw [hattempt]
    exact hP.2

theorem returns_of_polls (hfair : FairRun x) (htold : ∀ n i, Told (x.state n) i) :
    x.LeadsTo (fun s => s.polls = some i) fun s => s.returned i ≠ none := by
  have hpending : ∀ {n e}, x.event n = e → (x.state n).Pending e ∧
      (x.state n).next e = x.state (n + 1) := by
    rintro n e rfl
    have hstep := (x.next n).2
    simpa [Step, ConnectClient.step] using hstep
  have hdone : x.LeadsTo (PollsAt i fun a => ¬ a.Begun) fun s => s.returned i ≠ none := by
    refine (leadsTo_of_fair (R := fun s => s.returned i ≠ none) (e := .poll i) hfair trivial
      (fun n hP hown => ?_) (fun n hP => hP.1) fun n hP he => ?_).trans (.or .refl .refl)
    · obtain hown | hown := hown
      · rcases (hpending hown).1 with hat | hat <;> exact absurd (by rw [hat]; trivial) hP.2
      · exact absurd (by rw [(hpending hown).1]; trivial) hP.2
    · have hdis : (x.state n).status ≠ .dis := fun hdis => hP.2 ((htold n i).waits hP.1 hdis)
      rw [← (hpending he).2]
      simp [next, ConnectClient.poll, hdis]
  have hconnecting : x.LeadsTo (PollsAt i fun a => a = .connecting)
      fun s => s.returned i ≠ none := by
    refine (leadsTo_of_fair (R := PollsAt i fun a => ¬ a.Begun) (e := .afterConnect i) hfair
      trivial (fun n hP hown => ?_) (fun n hP => hP.2) fun n hP he => ?_).trans (.or hdone .refl)
    · obtain hown | hown := hown
      · rcases (hpending hown).1 with hat | hat <;> exact nomatch hP.2.symm.trans hat
      · exact hown
    · rw [← (hpending he).2]
      simp only [next, ConnectClient.afterConnect]
      split_ifs <;> simp [PollsAt, hP.1, Attempt.Begun]
  have hthread : x.LeadsTo (PollsAt i fun a => a = .thread false ∨ a = .thread true)
      fun s => s.returned i ≠ none := by
    refine (leadsTo_of_fair (R := fun s => PollsAt i (fun a => ¬ a.Begun) s ∨
      PollsAt i (fun a => a = .connecting) s) (e := .thread i) hfair trivial
      (fun n hP hown => ?_) (fun n hP => hP.2) fun n hP he => ?_).trans
      (.or (.or hdone hconnecting) .refl)
    · apply hown.resolve_right
      intro hown
      rcases hP.2 with hat | hat <;> exact nomatch hat.symm.trans (hpending hown).1
    · rw [← (hpending he).2]
      simp only [next, ConnectClient.connectThread]
      split_ifs <;> simp [PollsAt, hP.1, Attempt.Begun]
  intro n hpolls
  cases hattempt : (x.state n).attempt i with
  | thread six =>
    refine hthread n ⟨hpolls, ?_⟩
    cases six <;> simp [hattempt]
  | connecting => exact hconnecting n ⟨hpolls, hattempt⟩
  | none | gaveUp | connected reading => exact hdone n ⟨hpolls, by simp [hattempt, Attempt.Begun]⟩

end Execution

theorem polls_or_returned (h : Reachable Init Step s) :
    ∀ i < s.calls, s.polls = some i ∨ s.returned i ≠ none := by
  refine h.invariant (P := fun s => ∀ i < s.calls, s.polls = some i ∨ s.returned i ≠ none)
    (fun s hinit i hi => ?_) fun s e t _ hs hstep i hi => ?_
  · simp [hinit.2.2.2.1] at hi
  · obtain ⟨hp, rfl⟩ : s.Pending e ∧ s.next e = t := by
      simpa [Step, ConnectClient.step] using hstep
    have hcall : ∀ {six : Bool} {a : Answers}, s.polls = none → i < s.calls + 1 →
        (s.startThread six a).polls = some i ∨ (s.startThread six a).returned i ≠ none := by
      intro six a hpolls hi
      have hold : i ≠ s.calls → s.returned i ≠ none := fun hne =>
        (hs i (by omega)).resolve_left (by simp [hpolls])
      simp only [ConnectClient.startThread]
      by_cases hcalls : i = s.calls
      · split <;> simp [hcalls]
      · split <;> simp [hcalls, hold hcalls]
    cases e with
    | connect a | connect6 a =>
      apply hcall hp
      simp only [next, ConnectClient.connect, ConnectClient.connect6,
        ConnectClient.startThread] at hi
      split at hi <;> exact hi
    | close | recv nread | closed => exact hs i hi
    | poll j =>
      simp only [next, ConnectClient.poll] at hi ⊢
      split at hi
      · next hdis => simpa [hdis] using hs i hi
      · next hdis =>
        rw [if_neg hdis]
        obtain hpolls | hreturned := hs i hi
        · obtain rfl := Option.some.inj (hpolls.symm.trans hp)
          exact .inr (by simp)
        · by_cases hij : i = j
          · exact .inr (by simp [hij])
          · exact .inr (by simpa [hij] using hreturned)
    | thread j =>
      simp only [next, ConnectClient.connectThread] at hi ⊢
      split_ifs at hi ⊢ <;> exact hs i hi
    | afterConnect j =>
      simp only [next, ConnectClient.afterConnect] at hi ⊢
      split_ifs at hi ⊢ <;> exact hs i hi

/-- In every run in which each call can be answered: what has been returned says whether the
attempt of that call got to `AfterConnect` with status 0 and started reading; and in every fair
execution each call returns. -/
theorem connect_answered (h : Reachable Init (Guarded Answerable Step) s) :
    (∀ i b, s.returned i = some b → (b = true ↔ s.attempt i = .connected true)) ∧
      ∀ x : Execution (Guarded Answerable Step), x.state 0 = s → FairRun x →
        ∀ m, ∀ i < (x.state m).calls, ∃ n, m ≤ n ∧ (x.state n).returned i ≠ none := by
  refine ⟨fun i => (Told.of_reachable h i).returned, fun x hstart hfair m i hi => ?_⟩
  have hreach := x.reachable (hstart ▸ h)
  obtain hpolls | hreturned :=
    polls_or_returned ((hreach m).mono fun _ _ _ hstep => hstep.2) i hi
  · exact returns_of_polls hfair (fun n => Told.of_reachable (hreach n)) m hpolls
  · exact ⟨m, Nat.le_refl m, hreturned⟩

/-- Nothing is left that would set the status that a call polls for. -/
structure Stuck (i : ℕ) (s : ConnectClient) : Prop where
  polls : s.polls = some i
  status : s.status = .dis
  idle : ∀ j, ¬ (s.attempt j).Begun
  returned : s.returned i = none

theorem Stuck.step (h : Stuck i s) (hstep : Step s e t) : Stuck i t := by
  obtain ⟨hp, rfl⟩ : s.Pending e ∧ s.next e = t := by
    simpa [Step, ConnectClient.step] using hstep
  cases e with
  | connect a | connect6 a => exact nomatch hp.symm.trans h.polls
  | close | recv nread | closed => exact ⟨h.1, h.2, h.3, h.4⟩
  | poll j => simpa [next, ConnectClient.poll, h.status] using h
  | thread j =>
    rcases hp with hp | hp <;> exact absurd (by rw [hp]; trivial) (h.idle j)
  | afterConnect j => exact absurd (by rw [hp]; trivial) (h.idle j)

theorem Stuck.of_run {es : List Event} (h : Stuck i s) (hrun : Run Step s es t) : Stuck i t := by
  induction hrun with
  | nil => exact h
  | cons hst _ ih => exact ih (h.step hst)

end ConnectClient

/-! ### Concrete runs -/

/-- An attempt that connects, one to an address that cannot be parsed, and one that is refused. -/
def Answers.ok : Answers := ⟨.ok, 0, 0, 0, 0, 0⟩

def Answers.badAddress : Answers := { Answers.ok with addr := -22 }

def Answers.refused : Answers := { Answers.ok with status := -111 }

namespace ConnectClient

def fresh : ConnectClient where
  owner := .fresh .client
  status := .dis
  calls := 0
  answers _ := .ok
  attempt _ := .none
  polls := none
  returned _ := none

theorem init_fresh : Init fresh :=
  ⟨Owner.init_fresh, rfl, rfl, rfl, fun _ => rfl, rfl, fun _ => rfl⟩

/-- A client that is refused, and then closes for ever. -/
def refusedEvent : ℕ → Event
  | 0 => .connect .refused
  | 1 => .thread 0
  | 2 => .afterConnect 0
  | 3 => .poll 0
  | _ => .close

def refusedState (n : ℕ) : ConnectClient :=
  n.rec fresh fun n s => s.next (refusedEvent n)

theorem refusedState_quiet (n : ℕ) :
    (refusedState (n + 4)).polls = none ∧
      ∀ i, (refusedState (n + 4)).attempt i = if i = 0 then .connected false else .none := by
  induction n with
  | zero =>
    refine ⟨rfl, fun i => ?_⟩
    cases i <;> rfl
  | succ n ih => exact ih

theorem refusedState_step : ∀ n,
    Guarded Answerable Step (refusedState n) (refusedEvent n) (refusedState (n + 1))
  | 0 => ⟨by decide, rfl⟩
  | 1 | 2 | 3 | _ + 4 => ⟨trivial, rfl⟩

def refusedRun : Execution (Guarded Answerable Step) :=
  ⟨refusedState, refusedEvent, refusedState_step⟩

theorem fairRun_refused : FairRun refusedRun := by
  intro e he n
  refine ⟨n + 4, Nat.le_add_right n 4, .inr fun hpending => ?_⟩
  obtain ⟨hpolls, hattempt⟩ := refusedState_quiet n
  have hstate : refusedRun.state (n + 4) = refusedState (n + 4) := rfl
  rw [hstate] at hpending
  cases e with
  | poll i => exact nomatch hpolls.symm.trans hpending
  | thread i | afterConnect i =>
    simp only [Pending, hattempt] at hpending
    split at hpending <;> simp at hpending
  | _ => exact he

/-- The call that is refused returns, and it returns `false`. -/
theorem connect_answered_refused :
    (∃ n, 1 ≤ n ∧ (refusedRun.state n).returned 0 ≠ none) ∧
      (refusedRun.state 4).returned 0 = some false ∧
      (false = true ↔ (refusedRun.state 4).attempt 0 = .connected true) := by
  have hreach := refusedRun.reachable (.init init_fresh)
  exact ⟨(connect_answered (hreach 0)).2 refusedRun rfl fairRun_refused 1 0 Nat.one_pos,
    rfl, (connect_answered (hreach 4)).1 0 false rfl⟩

/-- The first call is for an address that cannot be parsed: it never returns. When a call has
connected before, such a call returns `true`. -/
theorem badAddress_not_answered :
    (∃ s, Reachable Init Step s ∧ s.polls = some 0 ∧
        ∀ es t, Run Step s es t → t.returned 0 = none) ∧
      ∃ s, Reachable Init Step s ∧ s.returned 1 = some true ∧ s.attempt 1 = .gaveUp := by
  have hfirst : ([.connect .badAddress, .thread 0].foldlM step fresh).isSome = true := by rfl
  have hsecond : ([.connect .ok, .thread 0, .afterConnect 0, .poll 0, .connect .badAddress,
      .thread 1, .poll 1].foldlM step fresh).isSome = true := by rfl
  refine ⟨⟨_, .of_foldlM (.init init_fresh) (Option.some_get hfirst).symm, by rfl, ?_⟩,
    ⟨_, .of_foldlM (.init init_fresh) (Option.some_get hsecond).symm, by rfl, by rfl⟩⟩
  intro es t hrun
  refine (Stuck.of_run (i := 0) ⟨by rfl, by rfl, fun j => ?_, by rfl⟩ hrun).returned
  cases j <;> exact id

end ConnectClient

end LibuvWorks.UVSocket
