import LibuvWorks.Unix.IoSpec

/-!
# A batch of events is dispatched

The callbacks that `uv__io_poll` runs may stop and close watchers, close descriptors and open new
ones, which get the same numbers. `uv__io_close` takes the events of a descriptor out of the
batch; `uv__io_stop` does not.
-/
namespace LibuvWorks.Unix

open List Option BitVec
open Function (update update_self update_of_ne)
open Transition IoLoop

/-- A callback of a watcher: the events it is given, what the watcher asks for then, and whether
its descriptor has been opened again since `epoll_wait` returned. -/
structure Delivery where
  w : ℕ
  events : Events
  pevents : Events
  reused : Bool
  deriving DecidableEq

/-- The watcher is started at its turn, on the descriptor that the event is about, and asks for
what it is given, or it is an error or a hangup. -/
structure Delivery.Live (d : Delivery) : Prop where
  started : d.pevents ≠ 0
  reused : d.reused = false
  events : d.events &&& ~~~(d.pevents ||| pollErr ||| pollHup) = 0

/-- A loop, the descriptors of the process, how often each has been opened, by now and when
`epoll_wait` returned, and the callbacks that have run. -/
structure Dispatch where
  loop : IoLoop
  isOpen : ℕ → Bool
  opened : ℕ → ℕ
  atWait : ℕ → ℕ
  log : List Delivery

namespace Dispatch

variable (s : Dispatch)

@[simps] def setLoop (loop : IoLoop) : Dispatch := { s with loop := loop }

/-- A callback runs. -/
def deliver (loop : IoLoop) : Option (ℕ × Events) → Dispatch
  | none => s.setLoop loop
  | some (w, events) =>
    let fd := (s.loop.io w).fd.toNat
    { s.setLoop loop with
      log := ⟨w, events, (s.loop.io w).pevents, s.opened fd ≠ s.atWait fd⟩ :: s.log }

/-- The calls that start, stop and close watchers and descriptors, and the steps of
`uv__io_poll`. -/
inductive Event where
  | openFd (fd : ℕ) : Event
  /-- The kernel keeps the descriptor in its set when another process has it too. -/
  | closeFd (fd : ℕ) (kept : Bool) : Event
  | checkFd (fd : ℕ) : Event
  | init (w : ℕ) (fd : ℤ) : Event
  | setFd (w : ℕ) (fd : ℤ) : Event
  | start (w : ℕ) (events : Events) : Event
  | stop (w : ℕ) (events : Events) : Event
  | feed (w : ℕ) : Event
  | close (w : ℕ) : Event
  | registration : Event
  | wait (events : List EpollEvent) : Event
  | turn : Event
  | signals : Event
  | finish : Event

/-- What the kernel and the callers keep to: a number is given out when it is free, a descriptor
is closed when no watcher is started on it and has at most one, and a started watcher is not
initialised. The watcher of the signals is started for its pipe and stays so. -/
def Pending : Event → Prop
  | .openFd fd => s.isOpen fd = false
  | .closeFd fd _ => fd < s.loop.nwatchers → s.loop.watchers fd = .null
  | .checkFd fd => fd < s.loop.nwatchers → s.loop.watchers fd = .null
  | .init w _ | .setFd w _ => (s.loop.io w).pevents = 0
  | .start w events => s.isOpen (s.loop.io w).fd.toNat = true ∧ Own s.loop w ∧
      (w = signalIoWatcher → events = pollIn)
  | .stop w _ | .close w => w ≠ signalIoWatcher
  | .feed _ | .turn | .signals | .finish => True
  | .registration | .wait _ => s.loop.batch = none

instance (l : IoLoop) (w : ℕ) : Decidable (Own l w) := inferInstanceAs (Decidable (_ → _ ∨ _))

instance (e : Event) : Decidable (s.Pending e) :=
  match e with
  | .openFd _ | .init _ _ | .setFd _ _ | .registration | .wait _ => inferInstanceAs (Decidable (_ = _))
  | .closeFd _ _ | .checkFd _ => inferInstanceAs (Decidable (_ → _))
  | .start _ _ => inferInstanceAs (Decidable (_ ∧ Own _ _ ∧ (_ → _)))
  | .stop _ _ | .close _ => inferInstanceAs (Decidable (_ ≠ _))
  | .feed _ | .turn | .signals | .finish => inferInstanceAs (Decidable True)

def next : Event → Option Dispatch
  | .openFd fd => some { s with
      isOpen := update s.isOpen fd true
      opened := update s.opened fd (s.opened fd + 1) }
  | .closeFd fd kept => some { s.setLoop (if kept then s.loop else s.loop.disarm fd) with
      isOpen := update s.isOpen fd false }
  -- `uv__io_check_fd` adds the descriptor to the kernel's set and removes it.
  | .checkFd fd => some (s.setLoop (s.loop.disarm fd))
  | .init w fd => some (s.setLoop (s.loop.uvIoInit w fd))
  | .setFd w fd => some (s.setLoop (s.loop.setIo w { s.loop.io w with fd := fd }))
  | .start w events => (s.loop.uvIoStart w events).map s.setLoop
  | .stop w events => (s.loop.uvIoStop w events).map s.setLoop
  | .feed w => some (s.setLoop (s.loop.uvIoFeed w))
  | .close w => (s.loop.uvIoClose w).map s.setLoop
  | .registration => s.loop.registration.map s.setLoop
  | .wait events => (s.loop.wait events).map fun l => { s.setLoop l with atWait := s.opened }
  | .turn => s.loop.turn.map fun (l, o) => s.deliver l o
  | .signals => s.loop.signals.map fun (l, o) => s.deliver l o
  | .finish => s.loop.finish.map s.setLoop

def step (s : Dispatch) (e : Event) : Option Dispatch := if s.Pending e then s.next e else none

/-- A loop before the first `uv__io_start`. -/
structure Init (s : Dispatch) : Prop where
  io : ∀ w, (s.loop.io w).events = 0 ∧ (s.loop.io w).pevents = 0
  watcherQueue : s.loop.watcherQueue = []
  allocated : s.loop.allocated = true
  watchers : ∀ i < s.loop.nwatchers + 2, s.loop.watchers i = .null
  nfds : s.loop.nfds = 0
  batch : s.loop.batch = none
  log : s.log = []

def Step (s : Dispatch) (e : Event) (t : Dispatch) : Prop := step s e = some t

/-! ### How handles close their watchers -/

/-- `uv__stream_close` and `uv__udp_close`, of a handle that has a descriptor. -/
def uvStreamClose (w fd : ℕ) (kept : Bool) : List Event :=
  [.close w, .closeFd fd kept, .setFd w (-1)]

/-- `uv__poll_stop` and `uv__poll_close`; the descriptor is the caller's. -/
def uvPollClose (w : ℕ) : List Event := [.stop w pollAll]

/-- The events of the batch that are still to be dispatched. -/
def rest (l : IoLoop) : List EpollEvent :=
  match l.batch with
  | none => []
  | some b => b.events.drop b.i

/-- A watcher that is started on a descriptor opened since `epoll_wait` returned finds no event
for it in the rest of the batch. -/
def Settled (s : Dispatch) : Event → Prop
  | .start w _ => s.opened (s.loop.io w).fd.toNat ≠ s.atWait (s.loop.io w).fd.toNat →
      ∀ pe ∈ rest s.loop, pe.data ≠ (s.loop.io w).fd
  | _ => True

instance (e : Event) : Decidable (Settled s e) :=
  match e with
  | .start w _ => inferInstanceAs (Decidable (_ → ∀ pe ∈ rest s.loop, pe.data ≠ (s.loop.io w).fd))
  | .openFd _ | .closeFd _ _ | .checkFd _ | .init _ _ | .setFd _ _ | .stop _ _ | .feed _ | .close _
  | .registration | .wait _ | .turn | .signals | .finish => inferInstanceAs (Decidable True)

/-! ### What is delivered -/

theorem deliverable_within (events pevents : Events) :
    deliverable events pevents &&& ~~~(pevents ||| pollErr ||| pollHup) = 0 := by
  have hmask : (events &&& (pevents ||| pollErr ||| pollHup)) &&&
      ~~~(pevents ||| pollErr ||| pollHup) = 0 := by
    rw [BitVec.and_assoc, BitVec.and_not_self]
    exact and_zero
  have hasked : (pevents &&& (pollIn ||| pollOut)) &&& ~~~(pevents ||| pollErr ||| pollHup) = 0 := by
    have hsub : pevents &&& ~~~(pevents ||| pollErr ||| pollHup) = 0 := by
      rw [BitVec.not_or, BitVec.not_or, ← BitVec.and_assoc, ← BitVec.and_assoc, BitVec.and_not_self,
        zero_and_legal, zero_and_legal]
    rw [BitVec.and_comm pevents, BitVec.and_assoc, hsub]
    exact and_zero
  unfold deliverable
  simp only
  split
  · exact or_legal hmask hasked
  · exact hmask

/-- A started watcher has an open descriptor, which has not been opened since `epoll_wait`
returned if an event for it is left in the batch. -/
structure Alive (s : Dispatch) : Prop where
  ok : IoOk s.loop
  opens : ∀ w, (s.loop.io w).pevents ≠ 0 → s.isOpen (s.loop.io w).fd.toNat = true
  signal : (s.loop.io signalIoWatcher).pevents = 0 ∨ (s.loop.io signalIoWatcher).pevents = pollIn
  fresh : ∀ pe ∈ rest s.loop, ∀ w, (s.loop.io w).pevents ≠ 0 → (s.loop.io w).fd = pe.data →
    s.opened (s.loop.io w).fd.toNat = s.atWait (s.loop.io w).fd.toNat
  signals : ∀ b, s.loop.batch = some b → b.haveSignals = true →
    (s.loop.io signalIoWatcher).pevents ≠ 0 ∧
      s.opened (s.loop.io signalIoWatcher).fd.toNat = s.atWait (s.loop.io signalIoWatcher).fd.toNat
  log : ∀ d ∈ s.log, d.Live

variable {s t : Dispatch} {e : Event} {l : IoLoop} {w : ℕ}

theorem Alive.of_init (h : Init s) : Alive s := by
  have hpev : ∀ w, ¬ (s.loop.io w).pevents ≠ 0 := fun w => not_not.mpr (h.io w).2
  refine ⟨.of_idle h.io h.watcherQueue h.allocated h.watchers h.nfds h.batch,
    fun w hw => absurd hw (hpev w), .inl (h.io _).2, fun pe _ w hw => absurd hw (hpev w),
    fun b hb => ?_, ?_⟩
  · rw [h.batch] at hb
    cases hb
  · simp [h.log]

theorem Alive.setLoop (h : Alive s) (hok : IoOk l)
    (hio : ∀ w, (l.io w).pevents ≠ 0 →
      (s.loop.io w).pevents ≠ 0 ∧ (l.io w).fd = (s.loop.io w).fd)
    (hsignal : (l.io signalIoWatcher).pevents = (s.loop.io signalIoWatcher).pevents)
    (hrest : ∀ pe ∈ rest l, pe.data = -1 ∨ pe ∈ rest s.loop)
    (hbatch : ∀ b, l.batch = some b → b.haveSignals = true →
      ∃ b', s.loop.batch = some b' ∧ b'.haveSignals = true) :
    Alive (s.setLoop l) := by
  refine ⟨hok, fun w hw => ?_, ?_, fun pe hpe w hw hfd => ?_, fun b hb hsignals => ?_, h.log⟩
  · obtain ⟨hold, hfd⟩ := hio w hw
    exact (congrArg (fun fd : ℤ => s.isOpen fd.toNat) hfd).trans (h.opens w hold)
  · rw [setLoop_loop, hsignal]
    exact h.signal
  · obtain ⟨hold, heq⟩ := hio w hw
    obtain hinvalid | hmem := hrest pe hpe
    · obtain ⟨hpos, -⟩ := hok.started w hw
      rw [setLoop_loop] at hfd
      omega
    · rw [setLoop_loop, heq] at hfd ⊢
      exact h.fresh pe hmem w hold hfd
  · obtain ⟨b', hb', hsignals'⟩ := hbatch b hb hsignals
    obtain ⟨hpev, hopened⟩ := h.signals b' hb' hsignals'
    rw [← hsignal] at hpev
    refine ⟨hpev, ?_⟩
    rw [setLoop_loop, (hio _ hpev).2]
    exact hopened

theorem mem_rest {pe : EpollEvent} :
    pe ∈ rest l ↔ ∃ b, l.batch = some b ∧ pe ∈ b.events.drop b.i := by
  unfold rest
  split
  · next hnone => simp [hnone]
  · next b hb => simp [hb]

section

variable (h : Alive s)
include h

theorem Alive.of_io (hok : IoOk l) (hio : l.io = s.loop.io)
    (hbatch : l.batch = s.loop.batch) : Alive (s.setLoop l) := by
  refine h.setLoop hok (fun w hw => ?_) (by rw [hio]) (fun pe hpe => .inr ?_) fun b hb hsignals => ?_
  · rw [hio] at hw ⊢
    exact ⟨hw, rfl⟩
  · rw [mem_rest, hbatch] at hpe
    exact mem_rest.mpr hpe
  · exact ⟨b, hbatch ▸ hb, hsignals⟩

theorem Alive.disarm (fd : ℤ) : Alive (s.setLoop (s.loop.disarm fd)) := by
  rw [disarm_eq]
  exact h.of_io (h.ok.setBatch rfl) rfl rfl

theorem Alive.setFd {fd : ℤ} {pending : Links} (hw : (s.loop.io w).pevents = 0) :
    Alive (s.setLoop { s.loop.setIo w ⟨fd, 0, 0⟩ with pendingQueue := pending }) := by
  have hne : ∀ {v}, ((s.loop.setIo w ⟨fd, 0, 0⟩).io v).pevents ≠ 0 → v ≠ w := by
    rintro v hv rfl
    simp at hv
  refine h.setLoop ((h.ok.setIdle hw).setBatch rfl) (fun v hv => ?_) ?_ (fun pe hpe => .inr hpe)
    fun b hb hsignals => ⟨b, hb, hsignals⟩
  · have hvw := hne hv
    rw [setIo_io, update_of_ne hvw] at hv ⊢
    exact ⟨hv, rfl⟩
  · by_cases hsignal : signalIoWatcher = w
    · simp [hsignal, hw]
    · simp [hsignal]

theorem Alive.openFd {fd : ℕ} (hfree : s.isOpen fd = false) :
    Alive { s with
      isOpen := update s.isOpen fd true
      opened := update s.opened fd (s.opened fd + 1) } := by
  have hne : ∀ w, (s.loop.io w).pevents ≠ 0 → (s.loop.io w).fd.toNat ≠ fd := by
    rintro w hw rfl
    rw [h.opens w hw] at hfree
    cases hfree
  refine ⟨h.ok, fun w hw => ?_, h.signal, fun pe hpe w hw hfd => ?_, fun b hb hsignals => ?_, h.log⟩
  · exact (update_of_ne (hne w hw) _ _).trans (h.opens w hw)
  · exact (update_of_ne (hne w hw) _ _).trans (h.fresh pe hpe w hw hfd)
  · obtain ⟨hpev, hopened⟩ := h.signals b hb hsignals
    exact ⟨hpev, (update_of_ne (hne _ hpev) _ _).trans hopened⟩

theorem Alive.closeFd {fd : ℕ}
    (hslot : fd < s.loop.nwatchers → s.loop.watchers fd = .null) :
    Alive { s with isOpen := update s.isOpen fd false } := by
  refine { h with opens := fun w hw => ?_ }
  have hne : (s.loop.io w).fd.toNat ≠ fd := by
    rintro rfl
    obtain ⟨-, hlt, hown⟩ := h.ok.started w hw
    rw [hslot hlt] at hown
    cases hown
  exact (update_of_ne hne _ _).trans (h.opens w hw)

theorem Alive.start {events : Events}
    (hopen : s.isOpen (s.loop.io w).fd.toNat = true) (hown : Own s.loop w)
    (hsignal : w = signalIoWatcher → events = pollIn) (hsettled : Settled s (.start w events))
    (hstart : s.loop.uvIoStart w events = some l) : Alive (s.setLoop l) := by
  obtain ⟨hok, hio, -, hbatch⟩ := h.ok.uvIoStart hown hstart
  have hfd : ∀ v, (l.io v).fd = (s.loop.io v).fd := by
    intro v
    rw [hio]
    by_cases hvw : v = w
    · subst hvw
      rw [update_self]
      rfl
    · rw [update_of_ne hvw]
  have hpev : ∀ {v}, v ≠ w → (l.io v).pevents = (s.loop.io v).pevents := by
    intro v hvw
    rw [hio, update_of_ne hvw]
  have hself : (l.io w).pevents = (s.loop.io w).pevents ||| events := by
    rw [hio, update_self]
    rfl
  refine ⟨hok, fun v hv => ?_, ?_, fun pe hpe v hv hpefd => ?_, fun b hb hsignals => ?_, h.log⟩
  · rw [setLoop_loop] at hv ⊢
    rw [hfd]
    by_cases hvw : v = w
    · exact hvw ▸ hopen
    · exact h.opens v (hpev hvw ▸ hv)
  · rw [setLoop_loop]
    by_cases hw : signalIoWatcher = w
    · rw [hw, hself, hsignal hw.symm, ← hw]
      obtain hzero | hin := h.signal
      · exact .inr (hzero ▸ zero_or)
      · exact .inr (hin ▸ BitVec.or_self)
    · rw [hpev hw]
      exact h.signal
  · rw [setLoop_loop, hfd] at hpefd ⊢
    have hpe' : pe ∈ rest s.loop := by
      rw [mem_rest] at hpe ⊢
      rw [← hbatch]
      exact hpe
    by_cases hvw : v = w
    · subst hvw
      by_contra hreused
      exact hsettled hreused pe hpe' hpefd.symm
    · exact h.fresh pe hpe' v (hpev hvw ▸ hv) hpefd
  · obtain ⟨hold, hopened⟩ := h.signals b (hbatch ▸ hb) hsignals
    rw [setLoop_loop, hfd]
    refine ⟨?_, hopened⟩
    by_cases hw : signalIoWatcher = w
    · rw [hw, hself]
      exact fun habs => hold (hw ▸ (or_eq_zero_iff.mp habs).1)
    · rw [hpev hw]
      exact hold

theorem Alive.stop {events : Events} (hw : w ≠ signalIoWatcher)
    (hstop : s.loop.uvIoStop w events = some l) : Alive (s.setLoop l) := by
  obtain ⟨hok, hio, -, hbatch⟩ := h.ok.uvIoStop hstop
  refine h.setLoop hok (fun v hv => ?_) ?_ (fun pe hpe => .inr ?_)
    fun b hb hsignals => ⟨b, hbatch ▸ hb, hsignals⟩
  · rw [hio] at hv ⊢
    by_cases hvw : v = w
    · subst hvw
      rw [update_self] at hv ⊢
      unfold dropped at hv ⊢
      split at hv
      · exact absurd rfl hv
      · next hsome =>
        refine ⟨fun habs => hsome ?_, ?_⟩
        · rw [habs, zero_and_legal]
        · rw [if_neg hsome]
    · rw [update_of_ne hvw] at hv ⊢
      exact ⟨hv, rfl⟩
  · rw [hio, update_of_ne hw.symm]
  · rw [mem_rest, hbatch] at hpe
    exact mem_rest.mpr hpe

theorem Alive.close (hw : w ≠ signalIoWatcher)
    (hclose : s.loop.uvIoClose w = some l) : Alive (s.setLoop l) := by
  obtain ⟨hok, hio, hbatch, -⟩ := h.ok.uvIoClose hclose
  refine h.setLoop hok (fun v hv => ?_) ?_ (fun pe hpe => ?_) fun b hb hsignals => ?_
  · rw [hio] at hv ⊢
    have hvw : v ≠ w := by
      rintro rfl
      rw [update_self] at hv
      exact hv rfl
    rw [update_of_ne hvw] at hv ⊢
    exact ⟨hv, rfl⟩
  · rw [hio, update_of_ne hw.symm]
  · obtain ⟨b', hb', hdrop⟩ := mem_rest.mp hpe
    rw [hbatch] at hb'
    obtain ⟨b, hb, rfl⟩ := map_eq_some_iff.mp hb'
    rw [Batch.invalidate, ← map_drop] at hdrop
    obtain ⟨pe', hmem, rfl⟩ := mem_map.mp hdrop
    split
    · exact .inl rfl
    · exact .inr (mem_rest.mpr ⟨b, hb, hmem⟩)
  · rw [hbatch] at hb
    obtain ⟨b', hb', rfl⟩ := map_eq_some_iff.mp hb
    exact ⟨b', hb', hsignals⟩

theorem Alive.wait {events : List EpollEvent}
    (hwait : s.loop.wait events = some l) : Alive { s.setLoop l with atWait := s.opened } := by
  obtain ⟨hok, hio, -, hbatch⟩ := h.ok.wait hwait
  refine ⟨hok, fun w hw => ?_, ?_, fun pe hpe w hw hfd => rfl, fun b hb hsignals => ?_, h.log⟩
  · rw [setLoop_loop, hio] at hw ⊢
    exact h.opens w hw
  · rw [setLoop_loop, hio]
    exact h.signal
  · rw [setLoop_loop, hbatch] at hb
    cases hb
    cases hsignals

theorem Alive.slot {b : Batch} {pe : EpollEvent} (hb : s.loop.batch = some b)
    (hpe : b.events[b.i]? = some pe) (hpos : 0 ≤ pe.data) (hlt : pe.data.toNat < s.loop.nwatchers)
    (hslot : s.loop.watchers pe.data.toNat = .watcher w) :
    (s.loop.io w).pevents ≠ 0 ∧
      s.opened (s.loop.io w).fd.toNat = s.atWait (s.loop.io w).fd.toNat := by
  have hmem : pe ∈ rest s.loop := by
    obtain ⟨hi, rfl⟩ := List.getElem?_eq_some_iff.mp hpe
    refine mem_rest.mpr ⟨b, hb, ?_⟩
    rw [drop_eq_getElem_cons hi]
    exact mem_cons_self
  obtain hnull | ⟨v, hv, hfd, hpev⟩ := h.ok.table _ hlt
  · rw [hslot] at hnull
    cases hnull
  · obtain rfl := Slot.watcher.inj (hslot.symm.trans hv)
    exact ⟨hpev, h.fresh pe hmem w hpev (hfd.trans (Int.toNat_of_nonneg hpos))⟩

variable {o : Option (ℕ × Events)}

theorem Alive.turn (hturn : s.loop.turn = some (l, o)) :
    Alive (s.deliver l o) := by
  obtain ⟨hok, hio⟩ := h.ok.turn hturn
  obtain ⟨b, pe, hb, hpe, hcases⟩ := turn_cases hturn
  have hadvance : Alive (s.setLoop { s.loop with batch := some { b with i := b.i + 1 } }) := by
    refine h.setLoop (h.ok.setBatch (by rw [hb]; rfl)) (fun _ hw => ⟨hw, rfl⟩) rfl
      (fun pe hpe => .inr ?_) fun b' hb' hsignals => ⟨b, hb, ?_⟩
    · obtain ⟨b', hb', hmem⟩ := mem_rest.mp hpe
      cases hb'
      refine mem_rest.mpr ⟨b, hb, ?_⟩
      rw [← drop_drop] at hmem
      exact mem_of_mem_drop hmem
    · obtain rfl := Option.some.inj hb'
      exact hsignals
  obtain ⟨rfl, rfl⟩ | ⟨-, -, -, rfl, rfl⟩ | ⟨w, hpos, hlt, hslot, hwatcher⟩ := hcases
  · exact hadvance
  · exact hadvance.disarm pe.data
  · obtain ⟨hpev, hopened⟩ := h.slot hb hpe hpos hlt hslot
    obtain ⟨rfl, rfl, rfl⟩ | ⟨rfl, rfl⟩ := hwatcher
    · refine ⟨hok, hadvance.opens, hadvance.signal, fun pe hpe => hadvance.fresh pe ?_,
        fun _ _ _ => ⟨hpev, hopened⟩, h.log⟩
      obtain ⟨b', hb', hmem⟩ := mem_rest.mp hpe
      cases hb'
      exact mem_rest.mpr ⟨_, rfl, hmem⟩
    · refine { hadvance with
        log := forall_mem_cons.mpr ⟨⟨hpev, ?_, deliverable_within _ _⟩, h.log⟩ }
      simp [hopened]

theorem Alive.signalsTurn
    (hsignals : s.loop.signals = some (l, o)) : Alive (s.deliver l o) := by
  obtain ⟨hok, -⟩ := h.ok.signals hsignals
  obtain ⟨b, hb, hsignals⟩ := bind_eq_some_iff.mp hsignals
  obtain ⟨⟨-, hhave⟩, hsignals⟩ := by
    simpa only [ite_none_right_eq_some] using hsignals
  obtain ⟨rfl, rfl⟩ := Prod.mk.inj (Option.some.inj hsignals)
  obtain ⟨hpev, hopened⟩ := h.signals b hb hhave
  have hasks := h.signal.resolve_left hpev
  refine ⟨hok, h.opens, h.signal, fun pe hpe => h.fresh pe ?_, fun b' hb' hsignals => ?_,
    forall_mem_cons.mpr ⟨⟨hpev, ?_, ?_⟩, h.log⟩⟩
  · obtain ⟨b', hb', hmem⟩ := mem_rest.mp hpe
    cases hb'
    exact mem_rest.mpr ⟨b, hb, hmem⟩
  · obtain rfl := Option.some.inj hb'
    cases hsignals
  · simp [hopened]
  · simp only [hasks]
    decide

theorem Alive.step (hsettled : Settled s e) (hstep : Step s e t) : Alive t := by
  obtain ⟨hpending, hnext⟩ := by
    simpa only [Step, Dispatch.step, ite_none_right_eq_some] using hstep
  cases e with
  | openFd fd =>
    cases hnext
    exact h.openFd hpending
  | closeFd fd kept =>
    cases hnext
    cases kept with
    | true => exact h.closeFd hpending
    | false =>
      apply (h.disarm fd).closeFd
      intro hlt
      rw [setLoop_loop, disarm_eq] at hlt ⊢
      exact hpending hlt
  | checkFd fd =>
    cases hnext
    exact h.disarm fd
  | init w fd =>
    cases hnext
    exact h.setFd hpending
  | setFd w fd =>
    cases hnext
    have hidle : (⟨fd, (s.loop.io w).events, (s.loop.io w).pevents⟩ : Io) = ⟨fd, 0, 0⟩ :=
      congrArg₂ (Io.mk fd) (h.ok.stopped w hpending) hpending
    exact hidle ▸ h.setFd hpending
  | start w events =>
    obtain ⟨l, hstart, rfl⟩ := map_eq_some_iff.mp hnext
    obtain ⟨hopen, hown, hsignal⟩ := hpending
    exact h.start hopen hown hsignal hsettled hstart
  | stop w events =>
    obtain ⟨l, hstop, rfl⟩ := map_eq_some_iff.mp hnext
    exact h.stop hpending hstop
  | feed w =>
    cases hnext
    obtain ⟨hok, hio, -, hbatch⟩ := h.ok.uvIoFeed (w := w)
    exact h.of_io hok hio hbatch
  | close w =>
    obtain ⟨l, hclose, rfl⟩ := map_eq_some_iff.mp hnext
    exact h.close hpending hclose
  | registration =>
    obtain ⟨l, hpass, rfl⟩ := map_eq_some_iff.mp hnext
    obtain ⟨hok, hsame, hbatch⟩ := h.ok.registration hpass
    refine h.setLoop hok (fun w hw => ⟨?_, (hsame w).1⟩) (hsame _).2 (fun pe hpe => .inr ?_)
      fun b hb hsignals => ⟨b, hbatch ▸ hb, hsignals⟩
    · rw [← (hsame w).2]
      exact hw
    · rw [mem_rest, hbatch] at hpe
      exact mem_rest.mpr hpe
  | wait events =>
    obtain ⟨l, hwait, rfl⟩ := map_eq_some_iff.mp hnext
    exact h.wait hwait
  | turn =>
    obtain ⟨⟨l, o⟩, hturn, rfl⟩ := map_eq_some_iff.mp hnext
    exact h.turn hturn
  | signals =>
    obtain ⟨⟨l, o⟩, hsignals, rfl⟩ := map_eq_some_iff.mp hnext
    exact h.signalsTurn hsignals
  | finish =>
    obtain ⟨l, hfinish, rfl⟩ := map_eq_some_iff.mp hnext
    obtain ⟨hok, hio, -, hbatch⟩ := h.ok.finish hfinish
    refine h.setLoop hok (fun w hw => ?_) (by rw [hio]) (fun pe hpe => ?_) fun b hb _ => ?_
    · rw [hio] at hw ⊢
      exact ⟨hw, rfl⟩
    · obtain ⟨b, hb, -⟩ := mem_rest.mp hpe
      rw [hbatch] at hb
      cases hb
    · rw [hbatch] at hb
      cases hb

end

theorem Alive.of_reachable (h : Reachable Init (Guarded Settled Step) s) : Alive s :=
  h.invariant (fun _ => .of_init) fun _ _ _ _ hs ⟨hsettled, hstep⟩ => hs.step hsettled hstep

/-- In every run whose starts are settled, every callback finds its watcher started, on the
descriptor that `epoll_wait` reported, and is given no event that the watcher does not ask for. -/
theorem delivered_live (h : Reachable Init (Guarded Settled Step) s) : ∀ d ∈ s.log, d.Live :=
  (Alive.of_reachable h).log

/-! ### Concrete runs -/

def fresh : Dispatch where
  loop :=
    { io := fun _ => ⟨-1, 0, 0⟩
      pendingQueue := ⟨id, id⟩
      watcherQueue := []
      allocated := true
      watchers := fun _ => .null
      nwatchers := 0
      nfds := 0
      interest := fun _ => none
      batch := none }
  isOpen _ := false
  opened _ := 0
  atWait _ := 0
  log := []

theorem init_fresh : Init fresh where
  io _ := ⟨rfl, rfl⟩
  watcherQueue := rfl
  allocated := rfl
  watchers _ _ := rfl
  nfds := rfl
  batch := rfl
  log := rfl

def twoEvents : List Event :=
  [.openFd 5, .init 1 5, .start 1 pollIn, .openFd 6, .init 2 6, .start 2 pollIn, .registration,
    .wait [⟨pollIn, 5⟩, ⟨pollIn, 6⟩], .turn]

def reopened : List Event := [.openFd 6, .init 3 6, .start 3 pollIn, .turn]

/-- The second watcher is a stream's. -/
theorem delivered_live_uvStreamClose : ∃ s : Dispatch, s.log = [⟨1, pollIn, pollIn, false⟩] ∧
    (∃ b, s.loop.batch = some b ∧ b.i = 2) ∧ ∀ d ∈ s.log, d.Live := by
  have hsome : ((twoEvents ++ uvStreamClose 2 6 false ++ reopened).foldlM
      (fun s e => if Settled s e then step s e else none) fresh).isSome = true := by rfl
  exact ⟨_, by rfl, ⟨_, by rfl, by rfl⟩,
    delivered_live (.of_foldlM_if (.init init_fresh) (Option.some_get hsome).symm)⟩

/-- The second watcher is that of a `uv_poll_t`: its event is delivered to the third. -/
theorem uvPollClose_delivered : ∃ s : Dispatch, Reachable Init Step s ∧
    (⟨3, pollIn, pollIn, true⟩ : Delivery) ∈ s.log ∧ ¬ ∀ d ∈ s.log, d.Live := by
  have hsome : ((twoEvents ++ uvPollClose 2 ++ Event.closeFd 6 false :: reopened).foldlM step
      fresh).isSome = true := by rfl
  refine ⟨_, .of_foldlM (.init init_fresh) (Option.some_get hsome).symm, List.mem_cons_self,
    fun hlive => ?_⟩
  cases (hlive _ List.mem_cons_self).reused

end Dispatch

end LibuvWorks.Unix
